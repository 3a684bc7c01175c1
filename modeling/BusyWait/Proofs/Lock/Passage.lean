import BusyWait.Proofs.Lock.Stripes
import BusyWait.Proofs.Lock.Writers

/-
  BusyWait.Proofs.Lock.Passage — where waiting writers stand, and when they get through.

  After an operation all writers that wait go on, one after the other, from the stripe
  where they stand together. As long as any readers are left they come to the first stripe
  that has some, and set the bits on their way; the bits being set, it is the same way for
  each (`advanceEach_stops`). They get through when there are none (`advanceEach_ends`).

  - `round_orderly`: every fair operation keeps the order.
  - `writers_in_order`: after every run of every lock, where its writers wait, who is
    turned away meanwhile, and when they get through.
-/

namespace BusyWait.LockStep.Locks

variable {L T : Type} [Lock L T]

section
variable {F : Face L T} {s : State L T} {t : Thread}

/-! ## Those who wait go on -/

/-- A writer's thread, and the guard that it is to hold. -/
def Writer.who (w : Writer T) : Thread × Option String := (w.thread, w.guard)

/-- A writer that is let go on comes to the first stripe with readers from where it waits. -/
theorem advance_stops {w : Writer T} {k m : Nat} (hs : F.Sane s.lock) (hw : w.task = F.paused k)
    (hb : F.bit s.lock k = true) (hkm : k ≤ m) (hm : m < F.size)
    (hbefore : ∀ j, k ≤ j → j < m → F.readers s.lock j = 0) (hpos : 0 < F.readers s.lock m) :
    ∃ s' w', s.advance w = (s', none) ∧ F.Sane s'.lock ∧ (∀ j < F.size, F.readers s'.lock j = F.readers s.lock j ∧
      F.bit s'.lock j = (F.bit s.lock j || decide (k ≤ j ∧ j ≤ m))) ∧
      s'.waiting = s.waiting ++ [w'] ∧ w'.task = F.paused m ∧ w'.who = w.who := by
  obtain ⟨l, ns, hrun, hs', hl⟩ := F.stops hs w.task k (.inr ⟨hw, by omega, hb⟩) m hkm hm hbefore hpos
  unfold State.advance
  rw [State.run_eq hrun]
  exact ⟨_, _, rfl, hs', hl, rfl, rfl, rfl⟩

theorem advance_ends {w : Writer T} {k : Nat} (hs : F.Sane s.lock) (hw : w.task = F.paused k) (hk : k < F.size)
    (hb : F.bit s.lock k = true) (hnone : ∀ j, k ≤ j → j < F.size → F.readers s.lock j = 0) :
    ∃ s' f, s.advance w = (s', some f) ∧ F.Sane s'.lock ∧ (∀ j < F.size, F.readers s'.lock j = F.readers s.lock j ∧
      F.bit s'.lock j = (F.bit s.lock j || decide (k ≤ j))) ∧
      s'.waiting = s.waiting ∧ f.thread = w.thread ∧ f.reply = State.writerReply w.guard := by
  obtain ⟨l, ns, hrun, hs', hl⟩ := F.ends hs w.task k (.inr ⟨hw, hk, hb⟩) hnone
  unfold State.advance
  rw [State.run_eq hrun]
  obtain ⟨hlock, hwaiting⟩ := lock_hold { s with lock := l, team := s.team.note w.thread ns } w.thread w.guard
  refine ⟨_, _, rfl, ?_, ?_, hwaiting, rfl, rfl⟩
  · rw [hlock]
    exact hs'
  · rw [hlock]
    exact hl

/-- One writer after the other goes on. -/
def advanceEach (s : State L T) (done : List Finished) (ws : List (Writer T)) : State L T × List Finished :=
  ws.foldl (fun (s, done) w => let (s, f) := s.advance w; (s, done ++ f.toList)) (s, done)

theorem advanceEach_stops {k m : Nat} (hkm : k ≤ m) (hm : m < F.size) (ws : List (Writer T)) (done : List Finished)
    (hs : F.Sane s.lock) (hw : ∀ w ∈ ws, w.task = F.paused k) (hb : F.bit s.lock k = true)
    (hbefore : ∀ j, k ≤ j → j < m → F.readers s.lock j = 0) (hpos : 0 < F.readers s.lock m) :
    ∃ s' ws', advanceEach s done ws = (s', done) ∧ F.Sane s'.lock ∧
      (∀ j < F.size, F.readers s'.lock j = F.readers s.lock j ∧
        F.bit s'.lock j = (F.bit s.lock j || !ws.isEmpty && decide (k ≤ j ∧ j ≤ m))) ∧
      s'.waiting = s.waiting ++ ws' ∧ (∀ w ∈ ws', w.task = F.paused m) ∧ ws'.map Writer.who = ws.map Writer.who := by
  induction ws generalizing s with
  | nil => exact ⟨s, [], rfl, hs, fun j _ => ⟨rfl, by simp⟩, by simp, nofun, rfl⟩
  | cons w ws ih =>
    obtain ⟨s₁, w', hadv, hs₁, hl₁, hw₁, htask, hwho⟩ :=
      advance_stops hs (hw w List.mem_cons_self) hb hkm hm hbefore hpos
    have hread : ∀ j < F.size, F.readers s₁.lock j = F.readers s.lock j := fun j hj => (hl₁ j hj).1
    obtain ⟨s', ws', hfold, hs', hl', hws', htasks, hwhos⟩ := ih hs₁ (fun v hv => hw v (List.mem_cons_of_mem _ hv))
      (by rw [(hl₁ k (by omega)).2, hb]; rfl) (fun j hkj hjm => by rw [hread j (by omega)]; exact hbefore j hkj hjm)
      (by rw [hread m hm]; exact hpos)
    refine ⟨s', w' :: ws', ?_, hs', ?_, ?_, ?_, ?_⟩
    · unfold advanceEach at hfold ⊢
      simpa [hadv] using hfold
    · intro j hj
      obtain ⟨hr, hbit⟩ := hl' j hj
      refine ⟨hr.trans (hread j hj), ?_⟩
      rw [hbit, (hl₁ j hj).2]
      cases ws.isEmpty <;> simp
    · rw [hws', hw₁, List.append_assoc]
      rfl
    · intro v hv
      rcases List.mem_cons.mp hv with rfl | hv
      · exact htask
      · exact htasks v hv
    · rw [List.map_cons, List.map_cons, hwho, hwhos]

theorem advanceEach_ends {k : Nat} (hk : k < F.size) (ws : List (Writer T)) (done : List Finished)
    (hs : F.Sane s.lock) (hw : ∀ w ∈ ws, w.task = F.paused k) (hb : F.bit s.lock k = true)
    (hnone : ∀ j, k ≤ j → j < F.size → F.readers s.lock j = 0) :
    ∃ s' fs, advanceEach s done ws = (s', done ++ fs) ∧ F.Sane s'.lock ∧
      (∀ j < F.size, F.readers s'.lock j = F.readers s.lock j ∧
        F.bit s'.lock j = (F.bit s.lock j || !ws.isEmpty && decide (k ≤ j))) ∧
      s'.waiting = s.waiting ∧
      fs.map (fun f => (f.thread, f.reply)) = ws.map fun w => (w.thread, State.writerReply w.guard) := by
  induction ws generalizing s done with
  | nil => exact ⟨s, [], by simp [advanceEach], hs, fun j _ => ⟨rfl, by simp⟩, rfl, rfl⟩
  | cons w ws ih =>
    obtain ⟨s₁, f, hadv, hs₁, hl₁, hw₁, hthread, hreply⟩ := advance_ends hs (hw w List.mem_cons_self) hk hb hnone
    have hread : ∀ j < F.size, F.readers s₁.lock j = F.readers s.lock j := fun j hj => (hl₁ j hj).1
    obtain ⟨s', fs, hfold, hs', hl', hws', hfs⟩ := ih (done ++ [f]) hs₁ (fun v hv => hw v (List.mem_cons_of_mem _ hv))
      (by rw [(hl₁ k hk).2, hb]; rfl) (fun j hkj hj => by rw [hread j hj]; exact hnone j hkj hj)
    refine ⟨s', f :: fs, ?_, hs', ?_, hws'.trans hw₁, ?_⟩
    · unfold advanceEach at hfold ⊢
      simpa [hadv] using hfold
    · intro j hj
      obtain ⟨hr, hbit⟩ := hl' j hj
      refine ⟨hr.trans (hread j hj), ?_⟩
      rw [hbit, (hl₁ j hj).2]
      cases ws.isEmpty <;> simp
    · rw [List.map_cons, List.map_cons, hthread, hreply, hfs]

/-- Who got through, and with which reply. -/
def Finished.outcome (f : Finished) : Thread × Reply := (f.thread, f.reply)

/-- That of a writer once it is through. -/
def Writer.outcome (w : Writer T) : Thread × Reply := (w.thread, State.writerReply w.guard)

/-- The writers have come to stripe `m`, and wait there. -/
structure Come (F : Face L T) (s s' : State L T) (m : Nat) : Prop where
  sane : F.Sane s'.lock
  standing : Standing F s'.lock s'.waiting m
  busy : 0 < F.readers s'.lock m
  readers : ∀ j < F.size, F.readers s'.lock j = F.readers s.lock j
  who : s'.waiting.map Writer.who = s.waiting.map Writer.who

theorem Come.ne_nil {s' : State L T} {m : Nat} (h : Come F s s' m) (hne : s.waiting ≠ []) : s'.waiting ≠ [] := by
  intro hnil
  have hwho := h.who
  rw [hnil] at hwho
  exact hne (List.map_eq_nil_iff.mp hwho.symm)

theorem Come.trans {s₁ s₂ : State L T} {m : Nat} (h₁ : Come F s s₁ m) (h₂ : Come F s₁ s₂ m) : Come F s s₂ m :=
  ⟨h₂.sane, h₂.standing, h₂.busy, fun j hj => (h₂.readers j hj).trans (h₁.readers j hj), h₂.who.trans h₁.who⟩

theorem Standing.bit {l : L} {ws : List (Writer T)} {k : Nat} (h : Standing F l ws k) : F.bit l k = true := by
  rw [h.bits k h.lt]
  exact decide_eq_true (Nat.le_refl k)

/-- Some readers are left: all writers go on to the first stripe that has some. -/
theorem advanceAll_stops {k m : Nat} (hs : F.Sane s.lock) (hk : Standing F s.lock s.waiting k) (hne : s.waiting ≠ [])
    (hkm : k ≤ m) (hm : m < F.size) (hbefore : ∀ j, k ≤ j → j < m → F.readers s.lock j = 0)
    (hpos : 0 < F.readers s.lock m) : ∃ s', s.advanceAll = (s', []) ∧ Come F s s' m := by
  obtain ⟨s', ws', heach, hs', hl, hws, htasks, hwho⟩ :=
    advanceEach_stops (s := { s with waiting := [] }) hkm hm s.waiting [] hs hk.task hk.bit hbefore hpos
  obtain rfl : s'.waiting = ws' := hws
  have hread : ∀ j < F.size, F.readers s'.lock j = F.readers s.lock j := fun j hj => (hl j hj).1
  refine ⟨s', heach, hs', ⟨hm, htasks, ?_, ?_⟩, (hread m hm).symm ▸ hpos, hread, hwho⟩
  · intro j hj
    have hbit := (hl j hj).2
    rw [List.isEmpty_eq_false_iff.mpr hne, Bool.not_false, Bool.true_and] at hbit
    rw [hbit]
    show (F.bit s.lock j || decide (k ≤ j ∧ j ≤ m)) = decide (j ≤ m)
    rw [hk.bits j hj, ← Bool.decide_or]
    exact decide_eq_decide.mpr (by omega)
  · intro j hj
    rw [hread j (Nat.lt_trans hj hm)]
    by_cases hjk : j < k
    · exact hk.before j hjk
    · exact hbefore j (Nat.le_of_not_lt hjk) hj

/-- No readers are left: all writers get through. -/
theorem advanceAll_ends {k : Nat} (hs : F.Sane s.lock) (hk : Standing F s.lock s.waiting k) (hne : s.waiting ≠ [])
    (hnone : NoReaders F s.lock) : ∃ s' fs, s.advanceAll = (s', fs) ∧ F.Sane s'.lock ∧ s'.waiting = [] ∧
      (∀ j < F.size, F.bit s'.lock j = true) ∧ (∀ j < F.size, F.readers s'.lock j = F.readers s.lock j) ∧
      fs.map Finished.outcome = s.waiting.map Writer.outcome := by
  obtain ⟨s', fs, heach, hs', hl, hws, hfs⟩ := advanceEach_ends (s := { s with waiting := [] }) hk.lt s.waiting []
    hs hk.task hk.bit fun j _ hj => hnone j hj
  refine ⟨s', fs, heach, hs', hws, ?_, fun j hj => (hl j hj).1, hfs⟩
  intro j hj
  have hbit := (hl j hj).2
  rw [List.isEmpty_eq_false_iff.mpr hne, Bool.not_false, Bool.true_and] at hbit
  rw [hbit]
  show (F.bit s.lock j || decide (k ≤ j)) = true
  rw [hk.bits j hj, ← Bool.decide_or]
  exact decide_eq_true (by omega)

theorem settle_empty (n : Nat) (h : s.waiting = []) : s.settle n = (s, []) := by
  induction n with
  | zero => rfl
  | succ n ih =>
    have hself : { s with waiting := [] } = s := by rw [← h]
    have hall : s.advanceAll = (s, []) := by
      unfold State.advanceAll
      rw [h, hself]
      rfl
    simp only [State.settle, hall, ih]
    rfl

/-- They stay where they have come. -/
theorem settle_stays (n : Nat) {s₁ : State L T} {m : Nat} (h : Come F s s₁ m) (hne : s.waiting ≠ []) :
    ∃ s', s₁.settle n = (s', []) ∧ Come F s s' m := by
  induction n generalizing s₁ with
  | zero => exact ⟨s₁, rfl, h⟩
  | succ n ih =>
    obtain ⟨s₂, hall, hcome⟩ := advanceAll_stops h.sane h.standing (h.ne_nil hne) (Nat.le_refl m) h.standing.lt
      (fun j hmj hjm => absurd hjm (Nat.not_lt_of_le hmj)) h.busy
    obtain ⟨s', hrest, hs'⟩ := ih (h.trans hcome)
    refine ⟨s', ?_, hs'⟩
    simp only [State.settle, hall, hrest]
    rfl

/-- The writers get through with the last reader, and not before. -/
structure Passes (F : Face L T) (s s' : State L T) (fs : List Finished) : Prop where
  through : NoReaders F s'.lock → s'.waiting = [] ∧ fs.map Finished.outcome = s.waiting.map Writer.outcome
  held : ¬ NoReaders F s'.lock → fs = [] ∧ s.waiting.map Writer.who <+: s'.waiting.map Writer.who

/-- Those who wait when an operation is over. -/
theorem settle_mid (n : Nat) (h : Mid F s.lock s.waiting) : ∃ s' fs, s.settle (n + 1) = (s', fs) ∧
    Orderly F s'.lock s'.waiting ∧ (∀ j < F.size, F.readers s'.lock j = F.readers s.lock j) ∧ Passes F s s' fs := by
  obtain ⟨hs, ⟨hws, hcalm⟩ | ⟨hne, k, hk⟩⟩ := h
  · refine ⟨s, [], settle_empty _ hws, ⟨hs, .inl ⟨hws, hcalm⟩⟩, fun _ _ => rfl, ?_, ?_⟩
    · intro _
      rw [hws]
      exact ⟨rfl, rfl⟩
    · intro _
      exact ⟨rfl, List.prefix_rfl⟩
  rcases first_busy (F.readers s.lock) k F.size with hnone | ⟨m, hkm, hm, hbefore, hpos⟩
  · have hempty : NoReaders F s.lock := by
      intro j hj
      by_cases hjk : j < k
      · exact hk.before j hjk
      · exact hnone j (Nat.le_of_not_lt hjk) hj
    obtain ⟨s', fs, hall, hs', hws, hset, hread, hfs⟩ := advanceAll_ends hs hk hne hempty
    have hempty' : NoReaders F s'.lock := fun j hj => (hread j hj).trans (hempty j hj)
    refine ⟨s', fs, ?_, ⟨hs', .inl ⟨hws, .inr ⟨hset, hempty'⟩⟩⟩, hread, fun _ => ⟨hws, hfs⟩, fun h => absurd hempty' h⟩
    simp only [State.settle, hall, settle_empty n hws, List.append_nil]
  · obtain ⟨s₁, hall, hcome⟩ := advanceAll_stops hs hk hne hkm hm hbefore hpos
    obtain ⟨s', hrest, hs'⟩ := settle_stays n hcome hne
    refine ⟨s', [], ?_, ⟨hs'.sane, .inr ⟨hs'.ne_nil hne, m, hs'.standing, hs'.busy⟩⟩, hs'.readers, ?_, ?_⟩
    · simp only [State.settle, hall, hrest]
      rfl
    · intro hnone
      exact absurd (hnone m hm) (Nat.ne_of_gt hs'.busy)
    · intro _
      rw [hs'.who]
      exact ⟨rfl, List.prefix_rfl⟩

/-! ## A round -/

/-- The operation is that of a state where the thread may have drawn its index, and is alive. -/
theorem round_alike (s : State L T) (t : Thread) (op : Op) : ∃ s₀, Alike t s s₀ ∧
    s.round t op = (s₀.perform t op).1.settle ((s₀.perform t op).1.waiting.length + 1) := by
  have hc := alike_consider s t op
  by_cases hop : op = .exit
  · exact ⟨_, hc, by simp only [State.round, if_pos hop]⟩
  · have hj := alike_join (s.consider t op).1 t
    have h : Alike t s { (s.consider t op).1 with team := (s.consider t op).1.team.join t } :=
      ⟨hj.lock.trans hc.lock, hj.waiting.trans hc.waiting, hj.guards.trans hc.guards, hj.own.trans hc.own⟩
    exact ⟨_, h, by simp only [State.round, if_neg hop]⟩

/-- What is fair keeps the order, and lets the writers through with the last reader. -/
theorem round_orderly (h : Orderly F s.lock s.waiting) {op : Op} (hf : Fair F s t op) :
    Orderly F (s.round t op).1.lock (s.round t op).1.waiting ∧ Passes F s (s.round t op).1 (s.round t op).2 := by
  obtain ⟨s₀, ha, hround⟩ := round_alike s t op
  have h₀ : Orderly F s₀.lock s₀.waiting := by
    rw [ha.lock, ha.waiting]
    exact h
  have hpart := perform_part h₀ (hf.2.alike ha)
  rw [hround]
  generalize (s₀.perform t op).1 = r at hpart ⊢
  rcases hpart with hpart | ⟨hjoined, w, hws⟩
  · obtain ⟨hmid, hws⟩ := ha.part hpart
    obtain ⟨s', fs, hsettle, horderly, -, hpasses⟩ := settle_mid r.waiting.length hmid
    rw [hsettle]
    exact ⟨horderly, by rw [← hws]; exact hpasses.through, by rw [← hws]; exact hpasses.held⟩
  · obtain ⟨s', fs, hsettle, horderly, hread, hpasses⟩ := settle_mid r.waiting.length hjoined.mid
    rw [hsettle]
    rw [ha.waiting] at hws
    refine ⟨horderly, ?_, ?_⟩
    · intro hnone
      -- One that begins to wait does so for readers, and they are still there.
      obtain ⟨-, ⟨hempty, -⟩ | ⟨-, k, hk, hpos⟩⟩ := hjoined
      · rw [hws] at hempty
        exact absurd hempty (List.append_ne_nil_of_right_ne_nil _ (List.cons_ne_nil _ _))
      · rw [← hread k hk.lt, hnone k hk.lt] at hpos
        exact absurd hpos (Nat.lt_irrefl 0)
    · intro hsome
      obtain ⟨hfs, hpre⟩ := hpasses.held hsome
      rw [hws, List.map_append] at hpre
      exact ⟨hfs, (List.prefix_append _ _).trans hpre⟩

theorem rounds_orderly (ops : List (Thread × Op)) (h : Orderly F s.lock s.waiting) (hf : FairRun F s ops) :
    Orderly F (s.rounds ops).lock (s.rounds ops).waiting := by
  induction ops generalizing s with
  | nil => exact h
  | cons e ops ih =>
    obtain ⟨t, op⟩ := e
    exact ih (round_orderly h hf.1).1 hf.2

/-! ## Every run -/

/-- How many readers there are on the first stripes. -/
def insideUpTo (F : Face L T) (l : L) : Nat → Nat
  | 0 => 0
  | n + 1 => insideUpTo F l n + F.readers l n

/-- How many there are over all stripes. -/
def inside (F : Face L T) (l : L) : Nat := insideUpTo F l F.size

theorem insideUpTo_eq_zero_iff {l : L} {n : Nat} : insideUpTo F l n = 0 ↔ ∀ j < n, F.readers l j = 0 := by
  induction n with
  | zero => exact iff_of_true rfl fun j hj => absurd hj (Nat.not_lt_zero j)
  | succ n ih =>
    rw [insideUpTo, Nat.add_eq_zero_iff, ih, Nat.forall_lt_succ_right]

theorem inside_eq_zero_iff {l : L} : inside F l = 0 ↔ NoReaders F l := insideUpTo_eq_zero_iff

/-- All writers wait at `k`, the first stripe with readers; the bits are set, and readers turned away, up to there. -/
structure WaitsAt (F : Face L T) (s : State L T) (k : Nat) : Prop extends Standing F s.lock s.waiting k where
  busy : 0 < F.readers s.lock k
  refused : ∀ i, (Lock.run s.lock (Lock.enter s.lock i)).2 = .done .refused ↔ i.slot F.size ≤ k

/-- Between two operations. -/
structure InOrder (F : Face L T) (s : State L T) : Prop where
  calm : s.waiting = [] → (∀ j < F.size, F.bit s.lock j = false) ∨ ∀ j < F.size, F.bit s.lock j = true
  waits : s.waiting ≠ [] → ∃ k, WaitsAt F s k
  /-- When the last reader is out all writers get through. -/
  through : ∀ t op, Fair F s t op → inside F (s.round t op).1.lock = 0 →
    (s.round t op).1.waiting = [] ∧ (s.round t op).2.map Finished.outcome = s.waiting.map Writer.outcome
  /-- As long as one is left, none does. -/
  held : ∀ t op, Fair F s t op → inside F (s.round t op).1.lock ≠ 0 →
    (s.round t op).2 = [] ∧ s.waiting.map Writer.who <+: (s.round t op).1.waiting.map Writer.who
  /-- What the run reports, unless it refuses to begin. -/
  reported : ∀ t op, Fair F s t op → (s.consider t op).2 = none →
    (s.step t op).1 = (s.round t op).1 ∧ (s.step t op).2.finished = (s.round t op).2.mergeSort State.byThread

theorem Standing.refused_iff {l : L} {ws : List (Writer T)} {k : Nat} (h : Standing F l ws k) (hs : F.Sane l)
    (i : Index) : (Lock.run l (Lock.enter l i)).2 = .done .refused ↔ i.slot F.size ≤ k := by
  have hbit := h.bits _ (F.slot_lt i)
  by_cases hik : i.slot F.size ≤ k
  · obtain ⟨ns, hrun⟩ := F.refuses hs i (hbit.trans (decide_eq_true hik))
    rw [hrun]
    exact iff_of_true rfl hik
  · exact iff_of_false (F.admits hs i (hbit.trans (decide_eq_false hik))) hik

theorem Orderly.inOrder (h : Orderly F s.lock s.waiting) : InOrder F s where
  calm hnil := by
    obtain ⟨-, ⟨-, hclear | ⟨hset, -⟩⟩ | ⟨hne, -⟩⟩ := h
    · exact .inl hclear
    · exact .inr hset
    · exact absurd hnil hne
  waits hne := by
    obtain ⟨hs, ⟨hnil, -⟩ | ⟨-, k, hk, hpos⟩⟩ := h
    · exact absurd hnil hne
    · exact ⟨k, hk, hpos, hk.refused_iff hs⟩
  through _ _ hf h0 := (round_orderly h hf).2.through (inside_eq_zero_iff.mp h0)
  held _ _ hf h0 := (round_orderly h hf).2.held fun hnone => h0 (inside_eq_zero_iff.mpr hnone)
  reported _ _ hf hc := State.step_round hf.1 hc

/-- Every fair run of the lock from the start is in order, and it is the program's if that refuses nothing. -/
def KeepsOrder (F : Face L T) (l : L) : Prop :=
  ∀ ops, FairRun F (.start l) ops → InOrder F ((State.start l).rounds ops) ∧
    ((State.start l).Begun ops → ((State.start l).runAll ops).1 = (State.start l).rounds ops)

/-- A lock with neither readers nor a writer. -/
theorem keepsOrder {l : L} (hs : F.Sane l) (hclear : ∀ j < F.size, F.bit l j = false) : KeepsOrder F l :=
  fun ops hf => ⟨(rounds_orderly ops ⟨hs, .inl ⟨rfl, .inl hclear⟩⟩ hf).inOrder, State.runAll_rounds ops⟩

theorem keepsOrder_worded (W : Worded L T) {l : L} (hof : W.Of l) (hfree : ∀ j < W.size, W.word l j = .free) :
    KeepsOrder W.face l := by
  have hcounts : ∀ j < W.size, (W.word l j).Counts 0 false := by
    intro j hj
    rw [hfree j hj]
    exact Word.counts_free
  exact keepsOrder ⟨hof, fun j hj => Worded.counts_self (hcounts j hj)⟩ fun j hj => (hcounts j hj).writerPending

end

/-- Writers wait together at the first stripe with readers, turn away who comes to a stripe up to there, and get
    through in the operation after which no reader is left. -/
theorem writers_in_order : (∀ n, KeepsOrder (StripedLock.worded n).face (StripedLock.new n)) ∧
    KeepsOrder RetryLock.worded.face RetryLock.new ∧
    (∀ policy, KeepsOrder (PatientLock.worded policy).face (PatientLock.new policy)) ∧
    KeepsOrder CountedLock.face CountedLock.new := by
  refine ⟨?_, ?_, ?_, ?_⟩
  · intro n
    have hsize : (StripedLock.new n).words.size = n + 1 := by simp [StripedLock.new]
    exact keepsOrder_worded _ hsize fun j hj => StripedLock.word_new (hsize ▸ hj)
  · exact keepsOrder_worded _ trivial fun _ _ => rfl
  · intro policy
    exact keepsOrder_worded _ rfl fun _ _ => rfl
  · exact keepsOrder trivial fun _ _ => rfl

/-- A writer waits for a reader of the second stripe, and gets through with its release. -/
theorem writers_in_order_waiting :
    let F := (StripedLock.worded 1).face
    let ops : List (Thread × Op) := [(0, .enterAt ⟨1⟩ none), (1, .block)]
    let s := (State.start (StripedLock.new 1)).rounds ops
    FairRun F (.start (StripedLock.new 1)) ops ∧ InOrder F s ∧ s.waiting.map Writer.who = [(1, none)] ∧
      Fair F s 0 (.leaveAt ⟨1⟩ 1) ∧ (s.round 0 (.leaveAt ⟨1⟩ 1)).2.map Finished.thread = [1] := by
  intro F ops s
  have hfair : FairRun F (.start (StripedLock.new 1)) ops := by
    refine ⟨⟨rfl, fun _ => ?_⟩, ⟨rfl, trivial⟩, trivial⟩
    unfold Room
    decide
  refine ⟨hfair, (writers_in_order.1 1 ops hfair).1, by decide, ⟨by decide, fun _ => ?_⟩, by decide +kernel⟩
  unfold Held
  decide

end BusyWait.LockStep.Locks
