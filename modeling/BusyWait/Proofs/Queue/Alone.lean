import BusyWait.Proofs.Queue.Quiet
import BusyWait.Proofs.Solo
import BusyWait.Queue.Pop

/-
  BusyWait.Proofs.Queue.Alone — what a push and a pop do to a quiet chain.

  A pop moves the head over the nodes whose element is gone, six accesses each, until it
  is just before an element or at the last node (`pop_skips`). It is then as if those
  nodes had never been there.

  - `push_reaches`: a push puts its element at the end.
  - `pop_first`: a pop takes the first element that is stored, if there is one.
  - `pop_idle`: a pop that is to find one and waits has taken nothing.
-/

namespace BusyWait

variable {α : Type} {c : Chain α}

open Chain

/-! ## Putting an element at the end -/

theorem push_reaches (h : c.Quiet) (a : α) :
    Reaches (fun c p => Push.step c p) (fun _ _ => false) 4 c (.readTail a) (c.pushed a, .done ()) := by
  have hn : (c.node c.tail).next = none := by
    have ht := h.tail
    rw [h.next c.tail (by omega), if_neg (by omega)]
  have hread : Push.step c (.readNext a c.tail) = (c, .more (.link a c.tail)) := by
    simp only [Push.step, hn]
  have hlink : Push.step c (.link a c.tail) = (c.link c.tail a, .more (.swing c.tail c.nodes.size)) := by
    simp only [Push.step, hn, if_pos]
  have hswing : Push.step (c.link c.tail a) (.swing c.tail c.nodes.size) = (c.pushed a, .done ()) := by
    simp only [Push.step, swapTail]
    exact congrArg (·, _) (if_pos rfl)
  exact .next rfl rfl (.next rfl hread (.next rfl hlink (.last rfl hswing)))

/-! ## Taking the first element out -/

namespace Pop

/-- Where a dequeue can only wait; `b` says whether it waits for an element. -/
def halts (b : Bool) (c : Chain α) (p : Pop) : Bool := p.waits c || p.idle c && b

end Pop

/-- With the head one node further. -/
def Chain.advanced (c : Chain α) : Chain α :=
  ({ c with head := c.head + 1 } : Chain α).modify c.head fun n => { n with retired := true }

namespace Chain

@[simp] theorem size_advanced (c : Chain α) : c.advanced.nodes.size = c.nodes.size := size_modify ..

@[simp] theorem head_advanced (c : Chain α) : c.advanced.head = c.head + 1 := rfl

theorem node_advanced (c : Chain α) (i : Nat) :
    c.advanced.node i = if c.head = i ∧ i < c.nodes.size then { c.node i with retired := true } else c.node i :=
  node_modify_eq ..

@[simp] theorem next_advanced (c : Chain α) (i : Nat) : (c.advanced.node i).next = (c.node i).next := by
  rw [node_advanced]
  split <;> rfl

@[simp] theorem word_advanced (c : Chain α) (i : Nat) : (c.advanced.node i).word = (c.node i).word := by
  rw [node_advanced]
  split <;> rfl

@[simp] theorem elem_advanced (c : Chain α) (i : Nat) : c.advanced.elem i = c.elem i := by
  rw [elem, node_advanced]
  split <;> rfl

theorem later_advanced (c : Chain α) : c.Later c.advanced :=
  ⟨by simp, by simp, fun i _ => .inl (elem_advanced c i)⟩

/-- Past a node whose element is gone. -/
theorem quiet_advanced (h : c.Quiet) (hn : c.head + 1 < c.nodes.size) (he : c.elem (c.head + 1) = none) :
    c.advanced.Quiet := by
  refine h.change (size_advanced c) (next_advanced c) rfl hn ?_ ?_
  · intro i hi
    rw [word_advanced, elem_advanced, h.word i hi]
  · intro i hi
    rw [elem_advanced]
    rcases Nat.le_succ_iff.mp hi with hi | rfl
    · exact h.passed i hi
    · exact he

theorem live_advanced (he : c.elem (c.head + 1) = none) : c.advanced.live = c.live := by
  rw [live, live, liveFrom_of_none he]
  exact liveFrom_congr (size_advanced c) fun j _ => elem_advanced c j

/-- With the first node after the head claimed and its element moved out. -/
def taken (c : Chain α) : Chain α := c.advanced.scrap (c.head + 1) .moved

@[simp] theorem size_taken (c : Chain α) : c.taken.nodes.size = c.nodes.size := by simp [taken]

@[simp] theorem head_taken (c : Chain α) : c.taken.head = c.head + 1 := rfl

theorem elem_taken (c : Chain α) (i : Nat) : c.taken.elem i = if i = c.head + 1 then none else c.elem i := by
  rw [taken, elem_scrap _ _ _ rfl, elem_advanced]

theorem later_taken (c : Chain α) : c.Later c.taken := (later_advanced c).trans (later_scrap _ _ rfl)

theorem quiet_taken (h : c.Quiet) (hn : c.head + 1 < c.nodes.size) : c.taken.Quiet := by
  refine h.change (size_taken c) (fun i => by simp [taken, scrap]) rfl hn ?_ ?_
  · intro i hi
    rw [elem_taken, taken, word_scrap _ _ _ (by simpa using hi), word_advanced]
    by_cases e : c.head + 1 = i
    · rw [if_pos e, if_pos e.symm]
      rfl
    · rw [if_neg e, if_neg (Ne.symm e), h.word i hi]
  · intro i hi
    rw [elem_taken]
    rcases Nat.le_succ_iff.mp hi with hi | rfl
    · rw [if_neg (by omega), h.passed i hi]
    · rw [if_pos rfl]

theorem live_taken {a : α} (he : c.elem (c.head + 1) = some a) : c.live = (c.head + 1, a) :: c.taken.live := by
  rw [live, liveFrom_of_some he, live, head_taken]
  refine congrArg _ (liveFrom_congr (size_taken c) ?_).symm
  intro i hi
  rw [elem_taken, if_neg (by omega)]

end Chain

/-- A pop moves the head on in five accesses, and is then about to claim. -/
theorem pop_advances (b : Bool) (h : c.Quiet) (hn : c.head + 1 < c.nodes.size) :
    Reaches Pop.step (Pop.halts b) 5 c .readHead (c.advanced, .more (.claim (c.head + 1))) := by
  have hnext : (c.node c.head).next = some (c.head + 1) := by rw [h.next _ h.head, if_pos hn]
  have hidle : Pop.halts b c .readHead = false := by simp [Pop.halts, Pop.waits, Pop.idle, hnext]
  have hread : Pop.step c (.readNext c.head) = (c, .more (.moveHead c.head (c.head + 1))) := by
    simp only [Pop.step, hnext]
  have hmove : Pop.step c (.moveHead c.head (c.head + 1)) =
      ({ c with head := c.head + 1 }, .more (.readTail c.head (c.head + 1))) := by
    simp only [Pop.step, swapHead, if_pos]
  have htail : Pop.step ({ c with head := c.head + 1 } : Chain α) (.readTail c.head (c.head + 1)) =
      ({ c with head := c.head + 1 }, .more (.retire c.head (c.head + 1))) := by
    have ht : c.tail ≠ c.head := by
      have := h.tail
      omega
    simp only [Pop.step, if_neg ht]
  exact .next hidle rfl (.next rfl hread (.next rfl hmove (.next rfl htail (.next rfl rfl .here))))

/-- A pop starts over at nodes whose element is gone, until the head is at the last node or
    just before an element. -/
theorem pop_skips (b : Bool) (h : c.Quiet) : ∃ c' : Chain α, c'.Quiet ∧ c.Later c' ∧ c'.nodes.size = c.nodes.size ∧
    c'.live = c.live ∧ (c'.nodes.size ≤ c'.head + 1 ∨ (c'.elem (c'.head + 1)).isSome) ∧
    Reaches Pop.step (Pop.halts b) (6 * (c'.head - c.head)) c .readHead (c', .more .readHead) := by
  induction hk : c.nodes.size - (c.head + 1) generalizing c with
  | zero => exact ⟨c, h, .refl c, rfl, rfl, .inl (by omega), .here⟩
  | succ k ih =>
    have hn : c.head + 1 < c.nodes.size := by omega
    cases he : c.elem (c.head + 1) with
    | some a => exact ⟨c, h, .refl c, rfl, rfl, .inr (by rw [he]; rfl), .here⟩
    | none =>
      have hw : (c.advanced.node (c.head + 1)).word = .owned := by
        rw [word_advanced, h.word _ hn, he]
        rfl
      have hclaim : Pop.step c.advanced (.claim (c.head + 1)) = (c.advanced, .more .readHead) := by
        have hself := setWord_self c.advanced hw
        simp only [Pop.step, hw, show Word.owned.claim = (Word.owned, false) by decide, hself]
        rfl
      obtain ⟨c', hq, hl, hs, hlive, hend, hr⟩ := ih (quiet_advanced h hn he) (by simp; omega)
      refine ⟨c', hq, (later_advanced c).trans hl, hs.trans (size_advanced c), hlive.trans (live_advanced he), hend, ?_⟩
      have hone : Reaches Pop.step (Pop.halts b) 1 c.advanced (.claim (c.head + 1)) (c.advanced, .more .readHead) :=
        .next rfl hclaim .here
      apply (((pop_advances b h hn).trans hone).trans hr).mono
      have hh := hl.head
      simp at hh ⊢
      omega

/-- Just before an element a pop takes it. -/
theorem pop_takes (b : Bool) (h : c.Quiet) {a : α} (he : c.elem (c.head + 1) = some a) :
    Reaches Pop.step (Pop.halts b) 8 c .readHead (c.taken, .done (.ok (some a))) := by
  have hn := lt_of_elem he
  have hw : (c.advanced.node (c.head + 1)).word = .free := by
    rw [word_advanced, h.word _ hn, he]
    rfl
  have hclaim : Pop.step c.advanced (.claim (c.head + 1)) =
      (c.advanced.setWord (c.head + 1) .owned, .more (.drain (c.head + 1) ⟨0⟩)) := by
    simp only [Pop.step, hw, show Word.free.claim = (Word.owned, true) by decide]
    rfl
  have howned : ((c.advanced.setWord (c.head + 1) .owned).node (c.head + 1)).word = .owned := by
    rw [word_setWord _ _ (by simpa using hn), if_pos rfl]
  have hwait : Pop.halts b (c.advanced.setWord (c.head + 1) .owned) (.drain (c.head + 1) ⟨0⟩) = false := by
    simp [Pop.halts, Pop.waits, Drain.waits, Pop.idle, howned]
  have hdrain : Pop.step (c.advanced.setWord (c.head + 1) .owned) (.drain (c.head + 1) ⟨0⟩) =
      (c.advanced.setWord (c.head + 1) .owned, .more (.take (c.head + 1))) := Pop.step_drain_owned howned _
  have htake : Pop.step (c.advanced.setWord (c.head + 1) .owned) (.take (c.head + 1)) =
      (c.taken, .done (.ok (some a))) := by
    have hs : ((c.advanced.setWord (c.head + 1) .owned).node (c.head + 1)).slot = .holds a :=
      slot_of_elem (by simpa using he)
    simp only [Pop.step, hs]
    rfl
  have hrest : Reaches Pop.step (Pop.halts b) 3 c.advanced (.claim (c.head + 1)) (c.taken, .done (.ok (some a))) :=
    .next rfl hclaim (.next hwait hdrain (.last rfl htake))
  exact (pop_advances b h hn).trans hrest

/-- What a pop leaves of a quiet chain. -/
structure Chain.Popped (c c' : Chain α) : Prop where
  quiet : c'.Quiet
  later : c.Later c'
  size : c'.nodes.size = c.nodes.size
  live : c'.live = c.live.tail

theorem Chain.Popped.toList {c' : Chain α} (hc : c.Popped c') (h : c.Quiet) : c'.toList = c.toList.tail := by
  rw [hc.quiet.toList_eq, hc.live, h.toList_eq, List.map_tail]

/-- Where an element is stored, a pop gives the first. -/
theorem pop_some (b : Bool) (h : c.Quiet) {x : Nat × α} {l : List (Nat × α)} (hl : c.live = x :: l) :
    ∃ c', c.Popped c' ∧ Reaches Pop.step (Pop.halts b) (8 * c.nodes.size) c .readHead (c', .done (.ok (some x.2))) := by
  obtain ⟨d, hd, hlater, hs, hlive, hend, hr⟩ := pop_skips b h
  have hn : d.head + 1 < d.nodes.size := by
    by_cases hn : d.head + 1 < d.nodes.size
    · exact hn
    · have hnil : d.live = [] := liveFrom_end (by omega)
      rw [hnil, hl] at hlive
      cases hlive
  obtain ⟨a, he⟩ := Option.isSome_iff_exists.mp (hend.resolve_left (by omega))
  have ht := live_taken he
  rw [hlive, hl] at ht
  cases ht
  refine ⟨d.taken, ⟨quiet_taken hd hn, hlater.trans (later_taken d), by simp [hs], by rw [hl]; rfl⟩, ?_⟩
  exact (hr.trans (pop_takes b hd he)).mono (by omega)

/-- Where none is stored, a pop comes to the last node. -/
theorem pop_ends (b : Bool) (h : c.Quiet) (hl : c.live = []) : ∃ c', c.Popped c' ∧ (c'.node c'.head).next = none ∧
    Reaches Pop.step (Pop.halts b) (6 * c.nodes.size) c .readHead (c', .more .readHead) := by
  obtain ⟨d, hd, hlater, hs, hlive, hend, hr⟩ := pop_skips b h
  have hn : ¬d.head + 1 < d.nodes.size := by
    intro hn
    obtain ⟨a, ha⟩ := Option.isSome_iff_exists.mp (hend.resolve_left (by omega))
    rw [live_taken ha, hl] at hlive
    cases hlive
  refine ⟨d, ⟨hd, hlater, hs, by rw [hlive, hl]; rfl⟩, by rw [hd.next _ hd.head, if_neg hn], hr.mono ?_⟩
  have := hd.head
  omega

/-- There it gives nothing. -/
theorem pop_none (h : c.Quiet) (hl : c.live = []) :
    ∃ c', c.Popped c' ∧ Reaches Pop.step (Pop.halts false) (8 * c.nodes.size) c .readHead (c', .done (.ok none)) := by
  obtain ⟨d, hd, hn, hr⟩ := pop_ends false h hl
  have hread : Pop.step d (.readNext d.head) = (d, .done (.ok none)) := by
    simp only [Pop.step, hn]
  have hlast : Reaches Pop.step (Pop.halts false) 2 d .readHead (d, .done (.ok none)) :=
    .next (by simp [Pop.halts, Pop.waits]) rfl (.last rfl hread)
  refine ⟨d, hd, (hr.trans hlast).mono ?_⟩
  have := h.head
  omega

/-- There a pop that is to find something waits. -/
theorem pop_idle (h : c.Quiet) (hl : c.live = []) : ∃ c', c.Popped c' ∧ Pop.halts true c' .readHead = true ∧
    Reaches Pop.step (Pop.halts true) (8 * c.nodes.size) c .readHead (c', .more .readHead) := by
  obtain ⟨d, hd, hn, hr⟩ := pop_ends true h hl
  exact ⟨d, hd, by simp [Pop.halts, Pop.idle, hn], hr.mono (by omega)⟩

/-- A pop that waits for nothing gives the first element, if there is one. -/
theorem pop_first (h : c.Quiet) : ∃ c', c.Popped c' ∧
    Reaches Pop.step (Pop.halts false) (8 * c.nodes.size) c .readHead (c', .done (.ok ((c.live.head?).map (·.2)))) := by
  cases hl : c.live with
  | nil => exact pop_none h hl
  | cons x l => exact pop_some false h hl

end BusyWait
