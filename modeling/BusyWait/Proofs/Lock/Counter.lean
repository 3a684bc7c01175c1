import BusyWait.Proofs.Crowd

/-
  BusyWait.Proofs.Lock.Counter — the lock of a counter and a flag among any number of threads.

  A reader counts itself before it looks at the flag, so beside the read locks that are out
  the counter holds the readers that have no answer yet (`pending`). That is all it holds,
  up to wrapping (`Booked.counter`). As long as the sum fits into the counter the writer
  gets in only where it is zero, and from then on every reader that looks finds the flag.

  - `run_booked`: the sum is what the counter holds, after every run.
  - `refused_traceless`: a reader that is turned away leaves the counter to the others.
  - `counter_excludes`: what follows for readers and the writer where the sum fits, and
    that the writer gets in among readers where it does not.
-/

namespace BusyWait.CountedLock

abbrev Party := Crowd CountedLock Task

/-- Is counted, and has no answer yet. -/
def counted : Option (Crowd.Visit Task) → Bool
  | some (.entering _ .check) | some (.entering _ .backOut) => true
  | _ => false

/-- The readers that are counted and have no answer yet. -/
def pending (c : Party) : Nat := c.threads.countP counted

/-- The writer's flag is set, and not cleared yet. -/
def Task.raised : Task → Bool
  | .drain _ | .unblock => true
  | _ => false

/-! ## The invariant -/

/-- A call that is where its thread says. -/
def Sound : Option (Crowd.Visit Task) → Prop
  | none => True
  | some (.entering _ t) => t = .count ∨ t = .check ∨ t = .backOut
  | some (.leaving _ t) => t = .leave

/-- The writer's call is one of a writer. -/
def Ready : Crowd.Tenure Task → Prop
  | .blocking t => t = .raise ∨ ∃ y, t = .drain y
  | .unblocking t => t = .unblock
  | .broken t => ∃ y, t = .drain y
  | _ => True

structure Booked (c : Party) : Prop where
  counter : c.lock.readers.toNat = (c.readers + pending c) % 0x100000000
  flag : c.lock.writer = c.tenure.holds Task.raised
  sound : ∀ v ∈ c.threads, Sound v
  ready : Ready c.tenure

theorem booked_around (n : Nat) : Booked (.around n new) := by
  refine ⟨?_, rfl, ?_, trivial⟩
  · have hv : Crowd.Visit.leaves (fun _ => true) (none : Option (Crowd.Visit Task)) = false := rfl
    have hc : counted none = false := rfl
    simp [Crowd.readers, Crowd.readersAt, pending, Crowd.around, List.countP_replicate, hv, hc, new]
  · intro v hv
    rw [List.eq_of_mem_replicate hv]
    trivial

theorem pending_setThread {c : Party} {k : Nat} {u v : Option (Crowd.Visit Task)} (h : c.threads[k]? = some u) :
    pending (c.setThread k v) + (counted u).toNat = pending c + (counted v).toNat :=
  Crowd.countP_set_add counted h

theorem toNat_succ (a : UInt32) : (a + 1).toNat = (a.toNat + 1) % 0x100000000 := by
  simp [UInt32.toNat_add]

theorem toNat_pred (a : UInt32) : (a - 1).toNat = (a.toNat + 0xFFFFFFFF) % 0x100000000 := by
  simp only [UInt32.toNat_sub]
  simp
  omega

/-! ## One access -/

/-- What an access of a reader's call can be. -/
inductive Visited (c : Party) (k : Nat) : Crowd.Visit Task → Party → Prop
  | counts (i : Index) : Visited c k (.entering i .count)
      { c.setThread k (some (.entering i .check)) with lock := { c.lock with readers := c.lock.readers + 1 } }
  | sees (i : Index) (h : c.lock.writer = true) :
      Visited c k (.entering i .check) (c.setThread k (some (.entering i .backOut)))
  | enters (i : Index) (h : c.lock.writer = false) :
      Visited c k (.entering i .check) { c.setThread k none with held := i :: c.held }
  | backsOut (i : Index) : Visited c k (.entering i .backOut)
      { c.setThread k none with lock := { c.lock with readers := c.lock.readers - 1 } }
  | leaves (i : Index) : Visited c k (.leaving i .leave)
      { c.setThread k none with lock := { c.lock with readers := c.lock.readers - 1 } }

theorem visit_cases (c : Party) (k : Nat) {v : Crowd.Visit Task} (hv : Sound (some v)) :
    Visited c k v (c.visit k v) := by
  cases v with
  | entering i t =>
    rcases hv with rfl | rfl | rfl
    · exact .counts i
    · cases hw : c.lock.writer with
      | true =>
        have hs : c.visit k (.entering i .check) = c.setThread k (some (.entering i .backOut)) := by
          simp [Crowd.visit, Crowd.Visit.task, Lock.step, step, hw, Crowd.visited, Crowd.setThread]
        rw [hs]
        exact .sees i hw
      | false =>
        have hs : c.visit k (.entering i .check) = { c.setThread k none with held := i :: c.held } := by
          simp [Crowd.visit, Crowd.Visit.task, Lock.step, step, hw, Crowd.visited, Crowd.setThread]
        rw [hs]
        exact .enters i hw
    · exact .backsOut i
  | leaving i t =>
    obtain rfl : t = .leave := hv
    exact .leaves i

/-- A reader's access that changes nothing but its call, the counter and who is counted. -/
theorem Booked.of_visit {c c' : Party} {k : Nat} {v : Option (Crowd.Visit Task)} (h : Booked c)
    (hn : c'.lock.readers.toNat = (c'.readers + pending c') % 0x100000000) (hw : c'.lock.writer = c.lock.writer)
    (ht : c'.tenure = c.tenure) (hv : c'.threads = (c.setThread k v).threads) (hs : Sound v) : Booked c' := by
  refine ⟨hn, by rw [hw, ht, h.flag], ?_, by rw [ht]; exact h.ready⟩
  rw [hv]
  exact Crowd.forall_setThread h.sound hs

theorem booked_visit {c : Party} {k : Nat} {v : Crowd.Visit Task} (h : Booked c) (hk : c.threads[k]? = some (some v)) :
    Booked (c.visit k v) := by
  have hr : ∀ u, (c.setThread k u).readers + (Crowd.Visit.leaves (fun _ => true) (some v)).toNat =
      c.readers + (Crowd.Visit.leaves (fun _ => true) u).toNat := fun u => Crowd.readersAt_setThread hk
  have hp : ∀ u, pending (c.setThread k u) + (counted (some v)).toNat = pending c + (counted u).toNat :=
    fun u => pending_setThread hk
  have hn := h.counter
  have hcase := visit_cases c k (h.sound _ (List.mem_of_getElem? hk))
  generalize c.visit k v = c' at hcase
  cases hcase with
  | counts i =>
    have hr := hr (some (.entering i .check))
    have hp := hp (some (.entering i .check))
    refine h.of_visit ?_ rfl rfl rfl (.inr (.inl rfl))
    show (c.lock.readers + 1).toNat =
      ((c.setThread k (some (.entering i .check))).readers + pending (c.setThread k (some (.entering i .check)))) % _
    rw [toNat_succ, hn]
    simp [counted] at hr hp
    omega
  | sees i hw =>
    have hr := hr (some (.entering i .backOut))
    have hp := hp (some (.entering i .backOut))
    refine h.of_visit ?_ rfl rfl rfl (.inr (.inr rfl))
    show c.lock.readers.toNat = _
    simp [counted] at hr hp
    rw [hn, hr, hp]
  | enters i hw =>
    have hp : pending (c.setThread k none) + 1 = pending c := hp none
    have hr : Crowd.readers { c.setThread k none with held := i :: c.held } = c.readers + 1 :=
      Crowd.readersAt_entered (l := c.lock) (fun _ => true) hk
    refine h.of_visit ?_ rfl rfl rfl (v := none) trivial
    show c.lock.readers.toNat =
      (Crowd.readers { c.setThread k none with held := i :: c.held } + pending (c.setThread k none)) % _
    rw [hn, hr]
    omega
  | backsOut i =>
    have hr := hr none
    have hp := hp none
    refine h.of_visit ?_ rfl rfl rfl (v := none) trivial
    show (c.lock.readers - 1).toNat = ((c.setThread k none).readers + pending (c.setThread k none)) % _
    rw [toNat_pred, hn]
    simp [counted] at hr hp
    omega
  | leaves i =>
    have hr := hr none
    have hp := hp none
    refine h.of_visit ?_ rfl rfl rfl (v := none) trivial
    show (c.lock.readers - 1).toNat = ((c.setThread k none).readers + pending (c.setThread k none)) % _
    rw [toNat_pred, hn]
    simp [counted] at hr hp
    omega

/-- What an access of the writer's call can be. -/
inductive Written (c : Party) : Task → Party → Prop
  | raises : Written c .raise { c with lock := { c.lock with writer := true }, tenure := .blocking (.drain 0) }
  | polls (y n : UInt32) (h : c.lock.readers ≠ 0) : Written c (.drain y) { c with tenure := .blocking (.drain n) }
  /-- The count of its polls does not fit any more. -/
  | breaks (y : UInt32) (h : c.lock.readers ≠ 0) : Written c (.drain y) { c with tenure := .broken (.drain y) }
  | returns (y : UInt32) (h : c.lock.readers = 0) : Written c (.drain y) { c with tenure := .inside }
  | lowers : Written c .unblock { c with lock := { c.lock with writer := false }, tenure := .out }

theorem write_cases {c : Party} {t : Task} (hr : Ready c.tenure) (ht : c.tenure.task? = some t) :
    Written c t (c.write t) := by
  cases he : c.tenure with
  | blocking u =>
    rw [he] at ht hr
    cases ht
    rcases hr with rfl | ⟨y, rfl⟩
    · simp only [Crowd.write, Lock.step, step, he, Crowd.Tenure.proceed]
      exact .raises
    · by_cases h0 : c.lock.readers = 0
      · simp only [Crowd.write, Lock.step, step, if_pos h0, he, Crowd.Tenure.proceed]
        exact .returns y h0
      · simp only [Crowd.write, Lock.step, step, if_neg h0, he]
        cases next? y with
        | none => exact .breaks y h0
        | some n => exact .polls y n h0
  | unblocking u =>
    rw [he] at ht hr
    cases ht
    obtain rfl : t = .unblock := hr
    simp only [Crowd.write, Lock.step, step, he, Crowd.Tenure.proceed]
    exact .lowers
  | out => rw [he] at ht; cases ht
  | inside => rw [he] at ht; cases ht
  | broken u => rw [he] at ht; cases ht

/-- A writer that polls has set its flag. -/
theorem holds_drain {r : Crowd.Tenure Task} {y : UInt32} (h : r.task? = some (.drain y)) :
    r.holds Task.raised = true := by
  cases r with
  | blocking t => cases h; rfl
  | unblocking t => cases h; rfl
  | out => cases h
  | inside => cases h
  | broken t => cases h

/-! ## Every run -/

/-- Only the access of a reader's call counts anybody in or out. -/
theorem counted_step {c : Party} {e : Crowd.Event} (h : Ready c.tenure) (he : ∀ k, e ≠ .turn k) :
    (c.step e).lock.readers = c.lock.readers ∧ pending (c.step e) = pending c := by
  cases e with
  | turn k => exact absurd rfl (he k)
  | enter k i =>
    simp only [Crowd.step]
    split
    · rename_i hk
      exact ⟨rfl, pending_setThread (v := some (.entering i .count)) hk⟩
    · exact ⟨rfl, rfl⟩
  | leave k i =>
    simp only [Crowd.step]
    split
    · rename_i hk _
      exact ⟨rfl, pending_setThread (v := some (.leaving i .leave)) hk⟩
    · exact ⟨rfl, rfl⟩
  | writer =>
    simp only [Crowd.step]
    split
    · rename_i t ht
      have hw := write_cases h ht
      generalize c.write t = c' at hw
      cases hw <;> exact ⟨rfl, rfl⟩
    · exact ⟨rfl, rfl⟩
  | block => simp only [Crowd.step]; split <;> exact ⟨rfl, rfl⟩
  | unblock => simp only [Crowd.step]; split <;> exact ⟨rfl, rfl⟩
  | stumble => simp only [Crowd.step]; split <;> exact ⟨rfl, rfl⟩

theorem booked_step (c : Party) (e : Crowd.Event) (h : Booked c) : Booked (c.step e) := by
  have hf := h.flag
  have hn : (∀ k, e ≠ .turn k) →
      (c.step e).lock.readers.toNat = ((c.step e).readers + pending (c.step e)) % 0x100000000 := by
    intro he
    obtain ⟨hl, hp⟩ := counted_step h.ready he
    have hr : (c.step e).readers = c.readers := Crowd.readersAt_step _ he
    rw [hl, hp, hr, h.counter]
  cases e with
  | turn k =>
    simp only [Crowd.step]
    split
    · exact booked_visit h ‹_›
    · exact h
  | enter k i =>
    have hn := hn (by simp)
    simp only [Crowd.step] at hn ⊢
    split at hn
    · exact h.of_visit hn rfl rfl rfl (v := some (.entering i .count)) (.inl rfl)
    · exact h
  | leave k i =>
    have hn := hn (by simp)
    simp only [Crowd.step] at hn ⊢
    split at hn
    · exact h.of_visit hn rfl rfl rfl (v := some (.leaving i .leave)) rfl
    · exact h
  | block =>
    simp only [Crowd.step]
    split
    · rename_i ht
      rw [ht] at hf
      exact ⟨h.counter, hf, h.sound, .inl rfl⟩
    · exact h
  | unblock =>
    simp only [Crowd.step]
    split
    · rename_i ht
      rw [ht] at hf
      exact ⟨h.counter, hf, h.sound, rfl⟩
    · exact h
  | writer =>
    simp only [Crowd.step]
    split
    · rename_i t ht
      have hw := write_cases h.ready ht
      have hr := h.ready
      generalize c.write t = c' at hw
      cases hw with
      | raises => exact ⟨h.counter, rfl, h.sound, .inr ⟨0, rfl⟩⟩
      | polls y n h0 => exact ⟨h.counter, hf.trans (holds_drain ht), h.sound, .inr ⟨n, rfl⟩⟩
      | breaks y h0 => exact ⟨h.counter, hf.trans (holds_drain ht), h.sound, ⟨y, rfl⟩⟩
      | returns y h0 => exact ⟨h.counter, hf.trans (holds_drain ht), h.sound, trivial⟩
      | lowers => exact ⟨h.counter, rfl, h.sound, trivial⟩
    · exact h
  | stumble =>
    simp only [Crowd.step]
    split
    · rename_i hp
      obtain ⟨t, -, hp⟩ := Option.bind_eq_some_iff.mp hp
      cases hp
    · exact h

theorem run_booked {c : Party} (h : Booked c) (es : List Crowd.Event) : Booked (c.run es) :=
  Crowd.run_keeps booked_step h es

/-! ## A reader that is turned away -/

/-- What the accesses of all but thread `k` add to the counter. -/
def others (k : Nat) (c : Party) : List Crowd.Event → UInt32
  | [] => 0
  | e :: es => (if e = .turn k then 0 else (c.step e).lock.readers - c.lock.readers) + others k (c.step e) es

/-- What a reader has added to the counter by its call in progress. -/
def share (v : Option (Crowd.Visit Task)) : UInt32 := if counted v then 1 else 0

/-- A reader that is about to back out has added one, and the others have done the rest. -/
theorem readers_run {c : Party} {k : Nat} {i j : Index} {t : Task} {es : List Crowd.Event}
    (hk : c.threads[k]? = some (some (.entering i t))) (ht : Sound (some (.entering i t)))
    (hb : ∀ e ∈ es, e.begins k = false) (hend : (c.run es).threads[k]? = some (some (.entering j .backOut))) :
    (c.run es).lock.readers + share (some (.entering i t)) = c.lock.readers + others k c es + 1 := by
  induction es generalizing c t with
  | nil =>
    have he : some (some (Crowd.Visit.entering i t)) = some (some (.entering j .backOut)) := hk.symm.trans hend
    cases he
    simp [Crowd.run, others, share, counted]
  | cons e es ih =>
    have hes : ∀ f ∈ es, f.begins k = false := fun f hf => hb f (List.mem_cons_of_mem _ hf)
    rw [Crowd.run_cons] at hend ⊢
    by_cases he : e = .turn k
    · subst he
      have hlt : k < c.threads.length := (List.getElem?_eq_some_iff.mp hk).1
      have stays : ∀ c' : Party, c'.threads = c.threads.set k none →
          (c'.run es).threads[k]? ≠ some (some (.entering j .backOut)) := by
        intro c' hc' hj
        have hnone : c'.threads[k]? = some none := by rw [hc', List.getElem?_set_self hlt]
        rw [Crowd.idle_run hnone hes] at hj
        cases hj
      have hstep : c.step (.turn k) = c.visit k (.entering i t) := by simp only [Crowd.step, hk]
      rw [others, if_pos rfl, UInt32.zero_add]
      rw [hstep] at hend ⊢
      have hcase := visit_cases c k ht
      generalize c.visit k (.entering i t) = c' at hcase hend
      cases hcase with
      | counts i =>
        have hn := ih (t := .check) (List.getElem?_set_self hlt) (.inr (.inl rfl)) hes hend
        simp only [share, counted, if_true, if_false, Bool.false_eq_true] at hn ⊢
        grind
      | sees i hw => exact ih (t := .backOut) (List.getElem?_set_self hlt) (.inr (.inr rfl)) hes hend
      | enters i hw => exact absurd hend (stays _ rfl)
      | backsOut i => exact absurd hend (stays _ rfl)
    · have hk' := (Crowd.thread_step (hb e List.mem_cons_self) he).trans hk
      rw [ih hk' ht hes hend, others, if_neg he]
      grind

/-- A reader that is turned away leaves the counter as the others made it since its call began. -/
def Traceless (c : Party) : Prop :=
  ∀ (k : Nat) i es t, c.threads[k]? = some none → (∀ e ∈ es, e.begins k = false) →
    let d := (c.step (.enter k i)).run es
    d.threads[k]? = some (some (.entering i t)) → (step d.lock t).2.1 = .done .refused →
      (d.step (.turn k)).lock.readers = c.lock.readers + others k (c.step (.enter k i)) es

theorem Booked.traceless {c : Party} (h : Booked c) : Traceless c := by
  intro k i es t hk hb d hd hv
  have hlt : k < c.threads.length := (List.getElem?_eq_some_iff.mp hk).1
  have hbegin : c.step (.enter k i) = c.setThread k (some (.entering i .count)) := by simp only [Crowd.step, hk]; rfl
  have hin : (c.step (.enter k i)).threads[k]? = some (some (.entering i .count)) := by
    rw [hbegin]
    exact List.getElem?_set_self hlt
  have hd' : Booked d := run_booked (booked_step _ _ h) es
  obtain rfl : t = .backOut := by
    rcases hd'.sound _ (List.mem_of_getElem? hd) with rfl | rfl | rfl
    · simp [step] at hv
    · cases hw : d.lock.writer <;> simp [step, hw] at hv
    · rfl
  have hrun := readers_run hin (.inl rfl) hb hd
  have hout : (d.step (.turn k)).lock.readers = d.lock.readers - 1 := by
    simp only [Crowd.step, hd]
    rfl
  have hfirst : (c.step (.enter k i)).lock.readers = c.lock.readers := by rw [hbegin]; rfl
  simp only [share, counted, if_false, Bool.false_eq_true] at hrun
  rw [hout, ← hfirst]
  grind

/-! ## Where the sum fits -/

/-- All who are counted fit into the counter. -/
def Fits (c : Party) : Prop := c.readers + pending c < 0x100000000

instance (c : Party) : Decidable (Fits c) := inferInstanceAs (Decidable (_ < _))

theorem Booked.counter_of_fits {c : Party} (h : Booked c) (hc : Fits c) :
    c.lock.readers.toNat = c.readers + pending c := by
  rw [h.counter, Nat.mod_eq_of_lt hc]

theorem Booked.writer_of_granted {c : Party} (h : Booked c) (hg : c.tenure.granted = true) :
    c.lock.writer = true := by
  have hr := h.ready
  rw [h.flag]
  cases ht : c.tenure with
  | inside => rfl
  | unblocking t =>
    rw [ht] at hr
    obtain rfl : t = .unblock := hr
    rfl
  | out => rw [ht] at hg; cases hg
  | blocking t => rw [ht] at hg; cases hg
  | broken t => rw [ht] at hg; cases hg

/-- As long as the flag is set nobody gets in. -/
theorem readers_visit_le {c : Party} {k : Nat} {v : Crowd.Visit Task} (hk : c.threads[k]? = some (some v))
    (hv : Sound (some v)) (hw : c.lock.writer = true) : (c.visit k v).readers ≤ c.readers := by
  have hr : ∀ u, (c.setThread k u).readers + (Crowd.Visit.leaves (fun _ => true) (some v)).toNat =
      c.readers + (Crowd.Visit.leaves (fun _ => true) u).toNat := fun u => Crowd.readersAt_setThread hk
  have hcase := visit_cases c k hv
  generalize c.visit k v = c' at hcase
  cases hcase with
  | counts i => exact Nat.le_of_eq (hr (some (.entering i .check)))
  | sees i _ => exact Nat.le_of_eq (hr (some (.entering i .backOut)))
  | enters i hw' =>
    rw [hw] at hw'
    cases hw'
  | backsOut i => exact Nat.le_of_eq (hr none)
  | leaves i => exact Nat.le_of_succ_le (Nat.le_of_eq (hr none))

theorem readers_step_le {c : Party} (h : Booked c) (hw : c.lock.writer = true) (e : Crowd.Event) :
    (c.step e).readers ≤ c.readers := by
  by_cases he : ∃ k, e = .turn k
  · obtain ⟨k, rfl⟩ := he
    simp only [Crowd.step]
    split
    · rename_i v hk
      exact readers_visit_le hk (h.sound _ (List.mem_of_getElem? hk)) hw
    · exact Nat.le_refl _
  · exact Nat.le_of_eq (Crowd.readersAt_step _ fun k hk => he ⟨k, hk⟩)

/-- A writer that is in was in before, or has just seen the counter at zero. -/
theorem granted_step {c : Party} {e : Crowd.Event} (h : Booked c) (hg : (c.step e).tenure.granted = true) :
    c.tenure.granted = true ∨ e = .writer ∧ c.lock.readers = 0 := by
  cases e with
  | turn k =>
    simp only [Crowd.step] at hg
    split at hg
    · rename_i v hk
      have hcase := visit_cases c k (h.sound _ (List.mem_of_getElem? hk))
      generalize c.visit k v = c' at hcase hg
      cases hcase <;> exact .inl hg
    · exact .inl hg
  | enter k i =>
    simp only [Crowd.step] at hg
    split at hg <;> exact .inl hg
  | leave k i =>
    simp only [Crowd.step] at hg
    split at hg <;> exact .inl hg
  | block =>
    simp only [Crowd.step] at hg
    split at hg
    · cases hg
    · exact .inl hg
  | unblock =>
    simp only [Crowd.step] at hg
    split at hg
    · rename_i ht
      rw [ht]
      exact .inl rfl
    · exact .inl hg
  | writer =>
    simp only [Crowd.step] at hg
    split at hg
    · rename_i t ht
      have hw := write_cases h.ready ht
      generalize c.write t = c' at hw hg
      cases hw with
      | returns y h0 => exact .inr ⟨rfl, h0⟩
      | raises => cases hg
      | polls y n h0 => cases hg
      | breaks y h0 => cases hg
      | lowers => cases hg
    · exact .inl hg
  | stumble =>
    simp only [Crowd.step] at hg
    split at hg
    · rename_i hp
      obtain ⟨t, -, hp⟩ := Option.bind_eq_some_iff.mp hp
      cases hp
    · exact .inl hg

/-- Once the writer is in nobody else is. -/
def Alone (c : Party) : Prop := c.tenure.granted = true → c.readers = 0

theorem alone_step {c : Party} {e : Crowd.Event} (h : Booked c) (hc : Fits c) (ha : Alone c) : Alone (c.step e) := by
  intro hg
  rcases granted_step h hg with hg | ⟨rfl, h0⟩
  · have hle := readers_step_le h (h.writer_of_granted hg) e
    rw [ha hg] at hle
    exact Nat.le_zero.mp hle
  · have hsum := h.counter_of_fits hc
    rw [h0, UInt32.toNat_zero] at hsum
    have hsame : (c.step .writer).readers = c.readers := Crowd.readersAt_step _ (by simp)
    omega

theorem run_alone {c : Party} (h : Booked c) (ha : Alone c) {es : List Crowd.Event}
    (hes : ∀ fs, fs <+: es → Fits (c.run fs)) : Alone (c.run es) := by
  induction es generalizing c with
  | nil => exact ha
  | cons e es ih =>
    refine ih (booked_step c e h) (alone_step h (hes [] List.nil_prefix) ha) ?_
    intro fs hfs
    exact hes (e :: fs) (List.cons_prefix_cons.mpr ⟨rfl, hfs⟩)

/-- A reader that begins where the flag is set is turned away, and the lock stays as it is. -/
theorem run_enter_refused {l : CountedLock} (h : l.writer = true) (i : Index) :
    Lock.run l (Lock.enter l i) = ((l, [.event .readRejected]), .done .refused) := by
  obtain ⟨n, b⟩ := l
  obtain rfl : b = true := h
  have hback : n + 1 - 1 = n := UInt32.add_sub_cancel n 1
  have hcount : Lock.noted ((⟨n, true⟩, []) : CountedLock × List Note) Task.count =
      ((⟨n + 1, true⟩, []), .more .check) :=
    rfl
  have hcheck : Lock.noted ((⟨n + 1, true⟩, []) : CountedLock × List Note) Task.check =
      ((⟨n + 1, true⟩, []), .more .backOut) := rfl
  have hout : Lock.noted ((⟨n + 1, true⟩, []) : CountedLock × List Note) Task.backOut =
      ((⟨n, true⟩, [.event .readRejected]), .done .refused) := by
    simp only [Lock.noted, Lock.step, step, hback, List.nil_append]
  exact (alone_succ_more rfl hcount).trans ((alone_succ_more rfl hcheck).trans (alone_succ_done rfl hout))

/-- What the lock promises its readers and its writer where all who are counted fit. -/
structure Exclusive (c : Party) : Prop where
  /-- From the return of block to the store of unblock no read lock is out, no reader on its way gets in, and
      whoever begins to enter is turned away. -/
  alone : c.tenure.granted = true → c.readers = 0 ∧
    (∀ (k : Nat) i t, c.threads[k]? = some (some (.entering i t)) → (step c.lock t).2.1 ≠ .done .entered) ∧
    ∀ i, Lock.run c.lock (Lock.enter c.lock i) = ((c.lock, [.event .readRejected]), .done .refused)
  /-- A release does not break off. -/
  leaving : ∀ (k : Nat) i t, c.threads[k]? = some (some (.leaving i t)) → (step c.lock t).2.1 = .done .finished

theorem Booked.exclusive {c : Party} (h : Booked c) (hc : Fits c) (ha : Alone c) : Exclusive c := by
  refine ⟨?_, ?_⟩
  · intro hg
    have hw := h.writer_of_granted hg
    refine ⟨ha hg, ?_, run_enter_refused hw⟩
    intro k i t hk
    rcases h.sound _ (List.mem_of_getElem? hk) with rfl | rfl | rfl
    · simp [step]
    · simp [step, hw]
    · simp [step]
  · intro k i t hk
    obtain rfl : t = .leave := h.sound _ (List.mem_of_getElem? hk)
    have hn : (c.setThread k none).readers + 1 = c.readers := Crowd.readersAt_left (l := c.lock) (fun _ => true) hk
    have hsum := h.counter_of_fits hc
    have h0 : c.lock.readers ≠ 0 := by
      intro e
      rw [e] at hsum
      have : (0 : UInt32).toNat = 0 := rfl
      omega
    simp only [step, if_neg h0]

/-! ## Where it does not -/

/-- Nothing stops read locks from being taken. -/
theorem readers_unbounded (n m : Nat) : ∃ es, let c := (Crowd.around (n + 1) new : Party).run es
    c.threads = List.replicate (n + 1) none ∧ c.held.length = m ∧ c.tenure = .out := by
  induction m with
  | zero => exact ⟨[], rfl, rfl, rfl⟩
  | succ m ih =>
    obtain ⟨es, hv, hm, ht⟩ := ih
    have hf := (run_booked (booked_around (n + 1)) es).flag
    refine ⟨es ++ [.enter 0 ⟨0⟩, .turn 0, .turn 0], ?_⟩
    have happ : (Crowd.around (n + 1) new : Party).run (es ++ [.enter 0 ⟨0⟩, .turn 0, .turn 0]) =
        ((Crowd.around (n + 1) new : Party).run es).run [.enter 0 ⟨0⟩, .turn 0, .turn 0] := List.foldl_append
    rw [happ]
    generalize (Crowd.around (n + 1) new : Party).run es = c at hv hm ht hf
    obtain ⟨⟨r, w⟩, vs, held, tenure⟩ := c
    obtain rfl : vs = _ := hv
    obtain rfl : tenure = .out := ht
    obtain rfl : w = false := hf
    exact ⟨rfl, congrArg (· + 1) hm, rfl⟩

/-- With as many read locks out as the counter has values it is zero, and the writer gets in among them. -/
theorem overfull_admits_writer (n : Nat) : ∃ es, let c := (Crowd.around (n + 1) new : Party).run es
    c.readers = 0x100000000 ∧ c.tenure = .out ∧ (c.run [.block, .writer, .writer]).tenure = .inside ∧
      (c.run [.block, .writer, .writer]).readers = 0x100000000 := by
  obtain ⟨es, hv, hm, ht⟩ := readers_unbounded n 0x100000000
  have hn := (run_booked (booked_around (n + 1)) es).counter
  refine ⟨es, ?_⟩
  generalize (Crowd.around (n + 1) new : Party).run es = c at hv hm ht hn
  obtain ⟨⟨r, w⟩, vs, held, tenure⟩ := c
  obtain rfl : vs = _ := hv
  obtain rfl : tenure = .out := ht
  have hr : Crowd.readers (⟨⟨r, w⟩, List.replicate (n + 1) none, held, .out⟩ : Party) = 0x100000000 := by
    have hm : held.length = 0x100000000 := hm
    simp [Crowd.readers, Crowd.readersAt, List.countP_replicate, hm]
  have hp : pending (⟨⟨r, w⟩, List.replicate (n + 1) none, held, .out⟩ : Party) = 0 := by
    simp [pending, counted, List.countP_replicate]
  rw [hr, hp] at hn
  obtain rfl : r = 0 := UInt32.toNat_inj.mp hn
  exact ⟨hr, rfl, rfl, hr⟩

/-- However many threads and steps: the counter is the read locks that are out and the readers that have no
    answer yet, up to wrapping; who is turned away leaves no trace in it; and as long as all fit, readers and
    writer exclude each other. -/
theorem counter_excludes (n : Nat) (es : List Crowd.Event) :
    let c := (Crowd.around n new : Party).run es
    c.lock.readers.toNat = (c.readers + pending c) % 0x100000000 ∧ Traceless c ∧
      ((∀ fs, fs <+: es → Fits ((Crowd.around n new : Party).run fs)) → Exclusive c) ∧
      ∃ fs, let d := (Crowd.around (n + 1) new : Party).run fs
        d.readers = 0x100000000 ∧ d.tenure = .out ∧ (d.run [.block, .writer, .writer]).tenure = .inside ∧
          (d.run [.block, .writer, .writer]).readers = 0x100000000 := by
  have h := run_booked (booked_around n) es
  refine ⟨h.counter, h.traceless, ?_, overfull_admits_writer n⟩
  intro hfits
  exact h.exclusive (hfits es List.prefix_rfl) (run_alone (booked_around n) (fun hg => nomatch hg) hfits)

/-- A reader is on its way when the writer sets its flag, another thread gives back the lock that is out, and the
    writer has to poll twice. -/
theorem counter_excludes_polled :
    let es : List Crowd.Event := [.enter 0 ⟨3⟩, .turn 0, .turn 0, .enter 0 ⟨1⟩, .turn 0, .block, .writer, .leave 1 ⟨3⟩,
      .turn 1, .writer, .turn 0, .turn 0, .writer]
    let c := (Crowd.around 2 new : Party).run es
    (∀ fs, fs <+: es → Fits ((Crowd.around 2 new : Party).run fs)) ∧ c.tenure.granted = true ∧ Exclusive c := by
  intro es c
  have hfits : ∀ fs, fs <+: es → Fits ((Crowd.around 2 new : Party).run fs) := by
    intro fs hfs
    have hall : ∀ n ≤ es.length, Fits ((Crowd.around 2 new : Party).run (es.take n)) := by decide
    rw [List.prefix_iff_eq_take.mp hfs]
    exact hall fs.length hfs.length_le
  exact ⟨hfits, by decide, (counter_excludes 2 es).2.2.1 hfits⟩

end BusyWait.CountedLock
