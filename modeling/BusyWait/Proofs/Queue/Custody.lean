import BusyWait.Proofs.Queue.Links

/-
  BusyWait.Proofs.Queue.Custody — who has an element, while any number of threads push,
  pop and walk.

  An access does one of ten things to the elements (`Effect`), and `Act.effect` says which.
  For one node, its word, its slot, the calls that are at it and what the log says of it
  make up its `Stand`. The invariant of a node (`Stand.Kept`) is a balance: an element that
  was put in is unclaimed, or one call has it claimed, or it was given out or dropped once.
  Beside it the word counts those who look at the element, and the slot holds it until it
  is given out or dropped.

  - `Kept.passed`, `Kept.won`, ...: each effect keeps the balance of its node.
  - `custody_run`: so does every run, for every node.
-/

namespace BusyWait

variable {σ α : Type}

open Chain

/-- What a call has to do with a node's element. -/
inductive Role where
  /-- A pop has moved the head onto the node, and has not tried to claim it yet. -/
  | passing
  /-- It has set the writer's bit, and waits for those inside, or has broken off while it did. -/
  | draining
  /-- Its claim is through. -/
  | holding
  /-- It is inside as a reader. -/
  | looking
  deriving DecidableEq, Repr

def Act.role? : Act σ α → Option (Role × Nat)
  | .pop (.readTail _ n) | .pop (.fixTail _ n) | .pop (.retire _ n) | .pop (.claim n) => some (.passing, n)
  | .pop (.drain n _) | .pop (.lost n) | .walk _ ⟨.drain _, n, _, _⟩ | .walk _ ⟨.lost, n, _, _⟩ =>
    some (.draining, n)
  | .pop (.take n) | .walk _ ⟨.drop, n, _, _⟩ => some (.holding, n)
  | .walk _ ⟨.inside, n, _, _⟩ | .walk _ ⟨.leave _, n, _, _⟩ => some (.looking, n)
  | _ => none

/-- A swap that is tried was seen to be allowed. -/
def Act.Fit : Act σ α → Prop
  | .walk _ ⟨.enter e, _, _, _⟩ => e.Fit
  | _ => True

/-- Head, words and slots are as they were. -/
structure Chain.SameItems (c c' : Chain α) : Prop where
  size : c'.nodes.size = c.nodes.size
  head : c'.head = c.head
  word : ∀ i, (c'.node i).word = (c.node i).word
  slot : ∀ i, (c'.node i).slot = (c.node i).slot

theorem Chain.SameItems.refl (c : Chain α) : c.SameItems c := ⟨rfl, rfl, fun _ => rfl, fun _ => rfl⟩

/-- What an access does to the elements: the chain and the caller's role before and after, and what is logged. -/
inductive Effect (c : Chain α) : Option (Role × Nat) → Chain α → Option (Role × Nat) → Option (Deed α) → Prop where
  | still (r : Option (Role × Nat)) {c' : Chain α} : c.SameItems c' → Effect c r c' r none
  | linked (t : Nat) (a : α) : Effect c none (c.link t a) none (some (.linked c.nodes.size a))
  | passed : c.head + 1 < c.nodes.size →
    Effect c none { c with head := c.head + 1 } (some (.passing, c.head + 1)) (some (.passed (c.head + 1)))
  /-- Somebody else has claimed the element. -/
  | skipped {n : Nat} {c' : Chain α} : c.SameItems c' → (c.node n).claimed = true →
    Effect c (some (.passing, n)) c' none none
  | won {n : Nat} {r : Option (Role × Nat)} : r = none ∨ r = some (.passing, n) → (c.node n).claimed = false →
    Effect c r (c.setWord n (c.node n).word.raise) (some (.draining, n)) none
  | drained {n : Nat} : (c.node n).word = .owned →
    Effect c (some (.draining, n)) c (some (.holding, n)) (some (.claimed n))
  | returned {n : Nat} {a : α} : (c.node n).slot = .holds a →
    Effect c (some (.holding, n)) (c.setSlot n .moved) none (some (.returned n a))
  | dropped {n : Nat} {a : α} : (c.node n).slot = .holds a →
    Effect c (some (.holding, n)) (c.setSlot n .dropped) none (some (.dropped n))
  | entered {n : Nat} : (c.node n).claimed = false → (c.node n).word.readers < Word.maxReaders →
    Effect c none (c.setWord n (c.node n).word.enter) (some (.looking, n)) none
  | left {n : Nat} : Effect c (some (.looking, n)) (c.setWord n (c.node n).word.leave) none none

/-! ## What each access does -/

/-- What a call relies on that is at an element: the element is there, and a reader inside is counted. -/
structure Act.Ready (c : Chain α) (v : Act σ α) : Prop where
  placed : v.Placed c
  fit : v.Fit
  inside : ∀ n, v.role? = some (.looking, n) → (c.node n).word.readers ≠ 0 ∧ ∃ a, (c.node n).slot = .holds a
  holding : ∀ n, v.role? = some (.holding, n) → ∃ a, (c.node n).slot = .holds a

theorem sameItems_of_nodes {c c' : Chain α} (h : c'.nodes = c.nodes) (hh : c'.head = c.head) : c.SameItems c' := by
  refine ⟨by rw [h], hh, ?_, ?_⟩
  · intro i
    rw [node, h, node]
  · intro i
    rw [node, h, node]

theorem sameItems_retire (c : Chain α) (i : Nat) : c.SameItems (c.retire i) := by
  refine ⟨size_modify .., rfl, ?_, ?_⟩
  · intro j
    rw [Chain.retire, node_modify_eq]
    split <;> rfl
  · intro j
    rw [Chain.retire, node_modify_eq]
    split <;> rfl

theorem head_setWord (c : Chain α) (i : Nat) (w : Word) : (c.setWord i w).head = c.head := rfl

theorem head_setSlot (c : Chain α) (i : Nat) (s : Slot α) : (c.setSlot i s).head = c.head := rfl

theorem word_setWord_eq (c : Chain α) (i j : Nat) (w : Word) :
    ((c.setWord i w).node j).word = if i = j ∧ j < c.nodes.size then w else (c.node j).word := by
  rw [setWord, node_modify_eq]
  split <;> rfl

theorem slot_setSlot (c : Chain α) (i j : Nat) (s : Slot α) :
    ((c.setSlot i s).node j).slot = if i = j ∧ j < c.nodes.size then s else (c.node j).slot := by
  rw [setSlot, node_modify_eq]
  split <;> rfl

/-- A new node comes with its element, and changes no other node's. -/
theorem items_link (c : Chain α) (t : Nat) (a : α) (j : Nat) :
    ((c.link t a).node j).word = (if j = c.nodes.size then .free else (c.node j).word) ∧
      ((c.link t a).node j).slot = if j = c.nodes.size then .holds a else (c.node j).slot := by
  by_cases hj : j ≤ c.nodes.size
  · rw [node_link c t j a hj]
    by_cases he : j = c.nodes.size
    · simp only [if_pos he]
      exact ⟨rfl, rfl⟩
    · simp only [if_neg he]
      split <;> exact ⟨rfl, rfl⟩
  · rw [node_of_le c (by omega), node_of_le _ (by rw [size_link]; omega), if_neg (by omega), if_neg (by omega)]
    exact ⟨rfl, rfl⟩

theorem lt_of_unclaimed {c : Chain α} {n : Nat} (h : (c.node n).claimed = false) : n < c.nodes.size := by
  have hs : (Node.sentinel : Node α).claimed = true := by
    show Word.owned.writerPending = true
    decide
  by_cases hn : n < c.nodes.size
  · exact hn
  · rw [node_of_le c (Nat.not_lt.mp hn), hs] at h
    cases h

theorem lt_of_holds {c : Chain α} {n : Nat} {a : α} (h : (c.node n).slot = .holds a) : n < c.nodes.size := by
  by_cases hn : n < c.nodes.size
  · exact hn
  · rw [node_of_le c (Nat.not_lt.mp hn)] at h
    cases h

theorem Word.raise_of_pending {w : Word} (h : w.writerPending = true) : w.raise = w := by
  rw [Word.raise, if_pos h]

/-- With what it saw a walk goes on to the next node or to a claim, if it goes on. -/
theorem afterSight_more {w u : Walk σ α} {seen : Sight α} {aim : Aim σ α} (h : w.afterSight seen aim = .more u) :
    u = w.goTo .seek ∨ u = w.goTo .claim := by
  cases seen with
  | copied a => cases h
  | broke f => cases h
  | answered b =>
    cases b with
    | false =>
      cases h
      exact .inl rfl
    | true =>
      cases aim with
      | remove ask limit =>
        cases h
        exact .inr rfl
      | copy => cases h
      | find ask => cases h

theorem push_effect (c : Chain α) (p : Push α) : Effect c (Act.push p : Act σ α).role?
    ((Act.push p : Act σ α).step c).1 (((Act.push p : Act σ α).step c).2.bind Act.role?)
    ((Act.push p : Act σ α).deed? c) := by
  cases p with
  | readTail a => exact .still none (.refl c)
  | readNext a t => cases h : (c.node t).next <;> simpa [Act.step, Push.step, h] using .still none (.refl c)
  | help a t n => exact .still none (sameItems_of_nodes (nodes_swapTail ..) (head_swapTail ..))
  | link a t =>
    rw [Act.deed?_link]
    by_cases h : (c.node t).next = none
    · simpa [Act.step, Push.step, h] using .linked t a
    · simpa [Act.step, Push.step, h] using .still none (.refl c)
  | swing t n => exact .still none (sameItems_of_nodes (nodes_swapTail ..) (head_swapTail ..))

/-- A claim that finds the bit set changes nothing; one that does not has won. -/
theorem claim_effect (c : Chain α) (n : Nat) :
    (c.node n).claimed = true ∧ c.SameItems (c.setWord n (c.node n).word.raise) ∨
    (c.node n).claimed = false := by
  cases h : (c.node n).claimed with
  | false => exact .inr rfl
  | true =>
    rw [setWord_self c (Word.raise_of_pending h).symm]
    exact .inl ⟨rfl, .refl c⟩

theorem pop_effect {c : Chain α} {p : Pop} (h : (Act.pop p : Act σ α).Ready c) : Effect c (Act.pop p : Act σ α).role?
    ((Act.pop p : Act σ α).step c).1 (((Act.pop p : Act σ α).step c).2.bind Act.role?)
    ((Act.pop p : Act σ α).deed? c) := by
  cases p with
  | readHead => exact .still none (.refl c)
  | readNext i => cases hn : (c.node i).next <;> simpa [Act.step, Pop.step, hn] using .still none (.refl c)
  | moveHead i n =>
    obtain ⟨rfl, hn⟩ := h.placed
    rw [Act.deed?_moveHead]
    by_cases hh : c.head = i
    · subst hh
      simpa [Act.step, Pop.step, swapHead] using .passed hn
    · simpa [Act.step, Pop.step, hh] using .still none (.refl c)
  | readTail i n =>
    have hr : (((Act.pop (.readTail i n) : Act σ α).step c).2.bind Act.role?) = some (.passing, n) := by
      simp only [Act.step, Pop.step]
      split <;> rfl
    rw [hr]
    exact .still _ (.refl c)
  | fixTail i n => exact .still _ (sameItems_of_nodes (nodes_swapTail ..) (head_swapTail ..))
  | retire i n => exact .still _ (sameItems_retire c i)
  | claim n =>
    rcases claim_effect c n with ⟨hc, hsame⟩ | hc
    · have hp : (c.node n).word.writerPending = true := hc
      simpa [Act.step, Pop.step, Word.claim, hp] using .skipped hsame hc
    · have hp : (c.node n).word.writerPending = false := hc
      simpa [Act.step, Pop.step, Word.claim, hp] using .won (.inr rfl) hc
  | drain n d =>
    rw [Act.deed?_drain]
    by_cases hw : (c.node n).word = .owned
    · simpa [Act.step, Pop.step_drain_owned hw, hw] using .drained hw
    · rcases Pop.step_drain_busy hw d with ⟨d', hd⟩ | hd <;>
        simpa [Act.step, hd, hw] using .still (some (.draining, n)) (.refl c)
  | lost n => exact .still _ (.refl c)
  | take n =>
    obtain ⟨a, ha⟩ := h.holding n rfl
    rw [Act.deed?_take]
    simpa [Act.step, Pop.step, ha] using .returned ha

theorem walk_effect {c : Chain α} {aim : Aim σ α} {w : Walk σ α} (h : (Act.walk aim w).Ready c) :
    Effect c (Act.walk aim w).role? ((Act.walk aim w).step c).1 (((Act.walk aim w).step c).2.bind Act.role?)
      ((Act.walk aim w).deed? c) := by
  obtain ⟨stage, n, s, m⟩ := w
  cases stage with
  | readHead =>
    simp only [Act.step, Walk.step]
    split <;> exact .still none (.refl c)
  | seek =>
    simp only [Act.step, Walk.step]
    split <;> exact .still none (.refl c)
  | enter e =>
    have hself : c.setWord n (c.node n).word = c := setWord_self c rfl
    rcases Entry.step_cases h.fit (c.node n).word with ⟨e', he, -⟩ | he | ⟨f, he⟩ | ⟨he, hp, hr⟩
    · simpa [Act.step, Walk.step, he, hself] using .still none (.refl c)
    · simpa [Act.step, Walk.step, he, hself] using .still none (.refl c)
    · simpa [Act.step, Walk.step, he, hself] using .still none (.refl c)
    · simpa [Act.step, Walk.step, he] using .entered hp hr
  | inside =>
    obtain ⟨-, a, ha⟩ := h.inside n rfl
    simpa [Act.step, Walk.step, ha] using .still (some (.looking, n)) (.refl c)
  | leave seen =>
    obtain ⟨hr, -⟩ := h.inside n rfl
    have hout : (Act.onward (.walk aim) (Walk.afterSight ⟨.leave seen, n, s, m⟩ seen aim)).bind Act.role? = none := by
      cases hw : Walk.afterSight ⟨.leave seen, n, s, m⟩ seen aim with
      | done r => rfl
      | more u => rcases afterSight_more hw with rfl | rfl <;> rfl
    have hdeed : (Act.walk aim ⟨.leave seen, n, s, m⟩).deed? c = none := rfl
    simpa [Act.step, Walk.step, Word.release, hr, hout, hdeed] using .left
  | claim =>
    rcases claim_effect c n with ⟨hc, hsame⟩ | hc
    · have hp : (c.node n).word.writerPending = true := hc
      simpa [Act.step, Walk.step, Word.claim, hp] using .still none hsame
    · have hp : (c.node n).word.writerPending = false := hc
      simpa [Act.step, Walk.step, Word.claim, hp] using .won (.inl rfl) hc
  | drain d =>
    rw [Act.deed?_walk_drain]
    by_cases hw : (c.node n).word = .owned
    · simpa [Act.step, Walk.step_drain_owned aim d s m hw, hw] using .drained hw
    · rcases Walk.step_drain_busy aim d s m hw with ⟨d', hd⟩ | hd <;>
        simpa [Act.step, hd, hw] using .still (some (.draining, n)) (.refl c)
  | lost => exact .still _ (.refl c)
  | drop =>
    obtain ⟨a, ha⟩ := h.holding n rfl
    rw [Act.deed?_walk_drop, ha]
    have hout : (((Act.walk aim ⟨.drop, n, s, m⟩).step c).2.bind Act.role?) = none := by
      simp only [Act.step, Walk.step, ha]
      split <;> rfl
    have hslot : ((Act.walk aim ⟨.drop, n, s, m⟩).step c).1 = c.setSlot n .dropped := by
      simp only [Act.step, Walk.step, ha]
    rw [hout, hslot]
    exact .dropped ha

theorem Act.Ready.effect {c : Chain α} {v : Act σ α} (h : v.Ready c) :
    Effect c v.role? (v.step c).1 ((v.step c).2.bind Act.role?) (v.deed? c) := by
  cases v with
  | push p => exact push_effect c p
  | pop p => exact pop_effect h
  | walk aim w => exact walk_effect h

/-! ## One node -/

/-- How a node stands: in the chain, among the calls in progress, and in the log. -/
structure Stand (α : Type) where
  word : Word
  slot : Slot α
  /-- The element that was linked with it. -/
  item : Option α
  /-- The head has not got to it. -/
  ahead : Bool
  passing : Nat
  draining : Nat
  holding : Nat
  looking : Nat
  claims : Nat
  returns : Nat
  drops : Nat

namespace Stand

structure Kept (s : Stand α) : Prop where
  counts : s.word.Counts s.looking s.word.writerPending
  /-- What was put in is unclaimed, or claimed by one call, or given out, or dropped. -/
  balance : (!s.word.writerPending).toNat + s.draining + s.holding + s.returns + s.drops = s.item.isSome.toNat
  claims : s.claims = s.holding + s.returns + s.drops
  closed : 0 < s.claims → s.looking = 0
  slot : ∀ a, s.item = some a →
    s.slot = if 0 < s.returns then .moved else if 0 < s.drops then .dropped else .holds a
  passing : s.passing + s.ahead.toNat ≤ 1
  /-- What is unclaimed is still to be passed, or to be tried by the pop that has passed it. -/
  pending : s.word.writerPending = false → 0 < s.passing + s.ahead.toNat
  absent : s.item = none → s.word = .owned

variable {s : Stand α}

theorem Kept.pending_of_draining (h : s.Kept) (hd : 0 < s.draining + s.holding + s.returns + s.drops) :
    s.word.writerPending = true := by
  have hb := h.balance
  cases hp : s.word.writerPending with
  | true => rfl
  | false =>
    have := Bool.toNat_le s.item.isSome
    rw [hp] at hb
    simp at hb
    omega

theorem Kept.passed (h : s.Kept) (ha : s.ahead = true) : Kept { s with ahead := false, passing := s.passing + 1 } := by
  have hp := h.passing
  have hn := h.pending
  rw [ha] at hp hn
  refine ⟨h.counts, h.balance, h.claims, h.closed, h.slot, hp, ?_, h.absent⟩
  intro _
  exact Nat.succ_pos _

/-- The node that a pop passes is not tried, since somebody else has claimed its element. -/
theorem Kept.skipped (h : s.Kept) (hp : s.word.writerPending = true) : Kept { s with passing := s.passing - 1 } := by
  have hle := h.passing
  refine ⟨h.counts, h.balance, h.claims, h.closed, h.slot, by simp only; omega, ?_, h.absent⟩
  intro hf
  rw [hp] at hf
  cases hf

theorem Kept.item_of_free (h : s.Kept) (hp : s.word.writerPending = false) : s.item ≠ none := by
  intro hi
  rw [h.absent hi] at hp
  cases hp

/-- A call sets the bit. -/
theorem Kept.won (h : s.Kept) (hp : s.word.writerPending = false) {m : Nat} (hm : m ≤ s.passing) :
    Kept { s with word := s.word.raise, passing := m, draining := s.draining + 1 } := by
  have hr := h.counts.raise
  have hw : s.word.raise.writerPending = true := hr.writerPending
  have hle := h.passing
  have hb := h.balance
  refine ⟨hw ▸ hr, ?_, h.claims, h.closed, h.slot, by simp only; omega, ?_, ?_⟩
  · rw [hp] at hb
    simp only [hw]
    simp at hb ⊢
    omega
  · intro hf
    rw [hw] at hf
    cases hf
  · intro hi
    exact absurd hi (h.item_of_free hp)

/-- Nobody is inside, and the claim is through. -/
theorem Kept.drained (h : s.Kept) (hw : s.word = .owned) (hd : 0 < s.draining) :
    Kept { s with draining := s.draining - 1, holding := s.holding + 1, claims := s.claims + 1 } := by
  have hb := h.balance
  have hc := h.claims
  have hl : s.looking = 0 := (h.counts.eq_owned_iff.mp hw).1
  refine ⟨h.counts, by simp only; omega, by simp only; omega, fun _ => hl, h.slot, h.passing, h.pending, h.absent⟩

theorem Kept.returned (h : s.Kept) (hh : 0 < s.holding) :
    Kept { s with slot := .moved, holding := s.holding - 1, returns := s.returns + 1 } := by
  have hb := h.balance
  have hc := h.claims
  refine ⟨h.counts, by simp only; omega, by simp only; omega, h.closed, ?_, h.passing, h.pending, h.absent⟩
  intro a _
  simp

theorem Kept.dropped (h : s.Kept) (hh : 0 < s.holding) :
    Kept { s with slot := .dropped, holding := s.holding - 1, drops := s.drops + 1 } := by
  have hb := h.balance
  have hc := h.claims
  have hr : s.returns = 0 := by
    have := Bool.toNat_le s.item.isSome
    omega
  refine ⟨h.counts, by simp only; omega, by simp only; omega, h.closed, ?_, h.passing, h.pending, h.absent⟩
  intro a _
  simp [hr]

theorem Kept.entered (h : s.Kept) (hp : s.word.writerPending = false) (hr : s.word.readers < Word.maxReaders) :
    Kept { s with word := s.word.enter, looking := s.looking + 1 } := by
  have he := (hp ▸ h.counts).enter hr
  have hw : s.word.enter.writerPending = false := he.writerPending
  have hc : s.claims = 0 := by
    by_cases hc : s.claims = 0
    · exact hc
    · have := h.claims
      have := h.pending_of_draining (by omega)
      rw [hp] at this
      cases this
  refine ⟨hw ▸ he, ?_, h.claims, ?_, h.slot, h.passing, ?_, ?_⟩
  · simp only [hw]
    exact hp ▸ h.balance
  · intro hlt
    exact absurd hlt (by simp [hc])
  · intro _
    exact h.pending hp
  · intro hi
    exact absurd hi (h.item_of_free hp)

theorem Kept.left (h : s.Kept) (hl : 0 < s.looking) :
    Kept { s with word := s.word.leave, looking := s.looking - 1 } := by
  have hcounts := h.counts
  obtain ⟨n, hn⟩ : ∃ n, s.looking = n + 1 := ⟨s.looking - 1, by omega⟩
  rw [hn] at hcounts
  have hv := hcounts.leave
  have hw : s.word.leave.writerPending = s.word.writerPending := hv.writerPending
  refine ⟨?_, ?_, h.claims, ?_, h.slot, h.passing, ?_, ?_⟩
  · simp only [hw, hn]
    exact hv
  · simp only [hw]
    exact h.balance
  · intro hc
    have := h.closed hc
    omega
  · simp only [hw]
    exact h.pending
  · intro hi
    have := (h.counts.eq_owned_iff.mp (h.absent hi)).1
    omega

/-- A node without an element, and nobody at it. -/
theorem kept_empty (ahead : Bool) : Kept (⟨.owned, .never, none, ahead, 0, 0, 0, 0, 0, 0, 0⟩ : Stand α) := by
  have hp : Word.owned.writerPending = true := by decide
  refine ⟨?_, by simp [hp], rfl, fun _ => rfl, nofun, ?_, ?_, fun _ => rfl⟩
  · simp only [hp]
    exact ⟨rfl, by omega⟩
  · simpa using Bool.toNat_le ahead
  · intro h
    rw [hp] at h
    cases h

/-- The node is linked. -/
theorem Kept.linked (h : s.Kept) (hi : s.item = none) (ha : s.ahead = true) (a : α) :
    Kept { s with word := .free, slot := .holds a, item := some a } := by
  have hb := h.balance
  have hl : s.looking = 0 := (h.counts.eq_owned_iff.mp (h.absent hi)).1
  have hp : Word.free.writerPending = false := by decide
  rw [hi] at hb
  simp at hb
  refine ⟨?_, ?_, h.claims, h.closed, ?_, h.passing, ?_, nofun⟩
  · simp only [hl, hp]
    exact Word.counts_free
  · simp [hp]
    omega
  · rintro b ⟨⟩
    simp [hb]
  · intro _
    simp [ha]

/-- Where the element was neither given out nor dropped it is there. -/
theorem Kept.holds (h : s.Kept) (hi : s.item ≠ none) (hr : s.returns = 0) (hd : s.drops = 0) :
    ∃ a, s.item = some a ∧ s.slot = .holds a := by
  obtain ⟨a, ha⟩ := Option.ne_none_iff_exists'.mp hi
  refine ⟨a, ha, ?_⟩
  rw [h.slot a ha, hr, hd]
  rfl

theorem Kept.holds_of_holding (h : s.Kept) (hh : 0 < s.holding) : ∃ a, s.item = some a ∧ s.slot = .holds a := by
  have hb := h.balance
  have hle := Bool.toNat_le s.item.isSome
  refine h.holds ?_ (by omega) (by omega)
  intro hi
  rw [hi] at hb
  simp at hb
  omega

theorem Kept.holds_of_looking (h : s.Kept) (hl : 0 < s.looking) : ∃ a, s.item = some a ∧ s.slot = .holds a := by
  have hc : s.claims = 0 := by
    by_cases hc : 0 < s.claims
    · have := h.closed hc
      omega
    · omega
  have hclaims := h.claims
  refine h.holds ?_ (by omega) (by omega)
  intro hi
  have := (h.counts.eq_owned_iff.mp (h.absent hi)).1
  omega

end Stand

/-! ## All nodes, after every run -/

/-- The call has this role at this node. -/
def Act.inRole (r : Role) (n : Nat) (v : Option (Act σ α)) : Bool := decide (v.bind Act.role? = some (r, n))

def Deed.claims {α : Type} (n : Nat) : Deed α → Bool
  | .claimed m => decide (m = n)
  | _ => false

def Deed.returns {α : Type} (n : Nat) : Deed α → Bool
  | .returned m _ => decide (m = n)
  | _ => false

def Deed.drops {α : Type} (n : Nat) : Deed α → Bool
  | .dropped m => decide (m = n)
  | _ => false

namespace Crew

/-- The calls that have a role at a node. -/
def count (c : Crew σ α) (r : Role) (n : Nat) : Nat := c.threads.countP (Act.inRole r n)

def deeds (c : Crew σ α) (p : Deed α → Bool) : Nat := c.log.countP fun x => p x.2

/-- The element that was linked with a node. -/
def item (c : Crew σ α) (n : Nat) : Option α := (c.sent.find? (·.2.1 == n)).map (·.2.2)

def stand (c : Crew σ α) (n : Nat) : Stand α where
  word := (c.chain.node n).word
  slot := (c.chain.node n).slot
  item := c.item n
  ahead := decide (c.chain.head < n)
  passing := c.count .passing n
  draining := c.count .draining n
  holding := c.count .holding n
  looking := c.count .looking n
  claims := c.deeds (Deed.claims n)
  returns := c.deeds (Deed.returns n)
  drops := c.deeds (Deed.drops n)

section
variable {c : Crew σ α} {k : Nat} {v : Act σ α}

theorem count_turn (hk : c.threads[k]? = some (some v)) (r : Role) (n : Nat) : (c.turn k v).count r n =
    c.count r n + (decide ((v.step c.chain).2.bind Act.role? = some (r, n))).toNat -
      (decide (v.role? = some (r, n))).toNat := by
  have h := Crowd.countP_set_add (b := (v.step c.chain).2) (Act.inRole r n) hk
  exact Nat.eq_sub_of_add_eq h

theorem deeds_turn (p : Deed α → Bool) : (c.turn k v).deeds p = c.deeds p + ((v.deed? c.chain).elim false p).toNat := by
  rw [deeds, turn, List.countP_append, deeds]
  cases v.deed? c.chain with
  | none => rfl
  | some d => cases h : p d <;> simp [h]

theorem item_turn (n : Nat) : (c.turn k v).item n =
    (c.item n).or (((v.deed? c.chain).bind Deed.link?).bind fun x => if x.1 = n then some x.2 else none) := by
  rw [item, sent, logged_turn, List.find?_append, item, sent]
  cases (v.deed? c.chain).bind Deed.link? with
  | none => simp
  | some x =>
    by_cases hx : x.1 = n
    · cases (c.logged Deed.link?).find? (·.2.1 == n) <;> simp [hx]
    · simp [hx]

theorem count_pos (hk : c.threads[k]? = some (some v)) {r : Role} {n : Nat} (hr : v.role? = some (r, n)) :
    0 < c.count r n :=
  List.countP_pos_iff.mpr ⟨_, List.mem_of_getElem? hk, by simp [Act.inRole, hr]⟩

end

/-- Every node's element is in order, and so are the links. -/
structure Custody (c : Crew σ α) : Prop where
  strung : c.Strung
  fit : ∀ v, some v ∈ c.threads → v.Fit
  kept : ∀ n, (c.stand n).Kept
  genuine : ∀ k n a, (k, .returned n a) ∈ c.log → c.item n = some a

/-- What was linked with a node, and who linked it. -/
theorem Strung.item_eq_some {c : Crew σ α} (h : c.Strung) {n : Nat} {a : α} :
    c.item n = some a ↔ ∃ i, (i, n, a) ∈ c.sent := by
  have hnodup : (c.sent.map (·.2.1)).Nodup := h.sent ▸ List.nodup_range'
  rw [item, Option.map_eq_some_iff]
  constructor
  · rintro ⟨⟨i, m, b⟩, hf, rfl⟩
    obtain rfl : m = n := by simpa using List.find?_some hf
    exact ⟨i, List.mem_of_find?_eq_some hf⟩
  · rintro ⟨i, hi⟩
    cases hf : c.sent.find? (·.2.1 == n) with
    | none =>
      have := List.find?_eq_none.mp hf _ hi
      simp at this
    | some x =>
      have hx : x.2.1 = n := by simpa using List.find?_some hf
      have hxi : x = (i, n, a) := List.inj_on_of_nodup_map hnodup (List.mem_of_find?_eq_some hf) hi hx
      exact ⟨x, rfl, by rw [hxi]⟩

/-- There is an element with every node but the first. -/
theorem Strung.item_isSome {c : Crew σ α} (h : c.Strung) {n : Nat} :
    (c.item n).isSome = true ↔ 0 < n ∧ n < c.chain.nodes.size := by
  have hsize := h.chain.head
  have hmem : n ∈ c.sent.map (·.2.1) ↔ 0 < n ∧ n < c.chain.nodes.size := by
    rw [h.sent, List.mem_range'_1]
    omega
  rw [← hmem, Option.isSome_iff_exists, List.mem_map]
  constructor
  · rintro ⟨a, ha⟩
    obtain ⟨i, hi⟩ := h.item_eq_some.mp ha
    exact ⟨_, hi, rfl⟩
  · rintro ⟨⟨i, m, a⟩, hi, rfl⟩
    exact ⟨a, h.item_eq_some.mpr ⟨i, hi⟩⟩

/-- What a call relies on holds. -/
theorem Custody.ready {c : Crew σ α} (h : c.Custody) {k : Nat} {v : Act σ α} (hk : c.threads[k]? = some (some v)) :
    v.Ready c.chain := by
  have hmem := List.mem_of_getElem? hk
  refine ⟨h.strung.placed v hmem, h.fit v hmem, ?_, ?_⟩
  · intro n hr
    have hpos := count_pos hk hr
    obtain ⟨a, -, ha⟩ := (h.kept n).holds_of_looking hpos
    refine ⟨?_, a, ha⟩
    intro hz
    have hreaders : (c.chain.node n).word.readers.toNat = c.count .looking n := (h.kept n).counts.readers
    rw [hz, UInt32.toNat_zero] at hreaders
    omega
  · intro n hr
    obtain ⟨a, -, ha⟩ := (h.kept n).holds_of_holding (count_pos hk hr)
    exact ⟨a, ha⟩

/-- An access keeps every node in order: the one that it is about as its effect says, and the others as they were. -/
theorem Custody.kept_turn {c : Crew σ α} (h : c.Custody) {k : Nat} {v : Act σ α} (hk : c.threads[k]? = some (some v))
    (j : Nat) : ((c.turn k v).stand j).Kept := by
  have hj := h.kept j
  have hpos := fun r n => count_pos (n := n) (r := r) hk
  have he := (h.ready hk).effect
  have hchain : (c.turn k v).chain = (v.step c.chain).1 := rfl
  simp only [stand, count_turn hk, deeds_turn, item_turn, hchain]
  generalize v.role? = r, (v.step c.chain).1 = c', (v.step c.chain).2.bind Act.role? = r',
    v.deed? c.chain = d at he hpos ⊢
  cases he with
  | still r hs => simpa [stand, hs.word, hs.slot, hs.head] using hj
  | linked t a =>
    obtain ⟨hword, hslot⟩ := items_link c.chain t a j
    rw [hword, hslot]
    have hhead : (c.chain.link t a).head = c.chain.head := rfl
    by_cases hjn : c.chain.nodes.size = j
    · subst hjn
      have hnone : c.item c.chain.nodes.size = none := by
        rw [← Option.not_isSome_iff_eq_none, h.strung.item_isSome]
        omega
      simpa [stand, hnone, hhead, Deed.link?, Deed.claims, Deed.returns, Deed.drops] using
        hj.linked hnone (decide_eq_true h.strung.chain.head) a
    · simpa [stand, hjn, Ne.symm hjn, hhead, Deed.link?, Deed.claims, Deed.returns, Deed.drops] using hj
  | passed hn =>
    have hnode : Chain.node { c.chain with head := c.chain.head + 1 } j = c.chain.node j := rfl
    rw [hnode]
    by_cases hjn : c.chain.head + 1 = j
    · subst hjn
      simpa [stand, Deed.link?, Deed.claims, Deed.returns, Deed.drops] using
        hj.passed (decide_eq_true (Nat.lt_succ_self _))
    · have hlt : decide (c.chain.head + 1 < j) = decide (c.chain.head < j) := by
        rw [decide_eq_decide]
        omega
      simpa [stand, hjn, hlt, Deed.link?, Deed.claims, Deed.returns, Deed.drops] using hj
  | @skipped n _ hs hc =>
    by_cases hjn : n = j
    · subst hjn
      simpa [stand, hs.word, hs.slot, hs.head] using hj.skipped hc
    · simpa [stand, hs.word, hs.slot, hs.head, hjn] using hj
  | @won n _ hr hc =>
    have hn := lt_of_unclaimed hc
    rw [word_setWord_eq, slot_setWord, head_setWord]
    by_cases hjn : n = j
    · subst hjn
      rcases hr with rfl | rfl
      · simpa [stand, hn] using hj.won hc (Nat.le_refl _)
      · simpa [stand, hn] using hj.won hc (Nat.sub_le _ 1)
    · rcases hr with rfl | rfl
      · simpa [stand, hjn] using hj
      · simpa [stand, hjn] using hj
  | @drained n hw =>
    by_cases hjn : n = j
    · subst hjn
      simpa [stand, Deed.link?, Deed.claims, Deed.returns, Deed.drops] using hj.drained hw (hpos _ _ rfl)
    · simpa [stand, hjn, Deed.link?, Deed.claims, Deed.returns, Deed.drops] using hj
  | @returned n a ha =>
    have hn := lt_of_holds ha
    rw [slot_setSlot, word_setSlot, head_setSlot]
    by_cases hjn : n = j
    · subst hjn
      simpa [stand, hn, Deed.link?, Deed.claims, Deed.returns, Deed.drops] using hj.returned (hpos _ _ rfl)
    · simpa [stand, hjn, Deed.link?, Deed.claims, Deed.returns, Deed.drops] using hj
  | @dropped n a ha =>
    have hn := lt_of_holds ha
    rw [slot_setSlot, word_setSlot, head_setSlot]
    by_cases hjn : n = j
    · subst hjn
      simpa [stand, hn, Deed.link?, Deed.claims, Deed.returns, Deed.drops] using hj.dropped (hpos _ _ rfl)
    · simpa [stand, hjn, Deed.link?, Deed.claims, Deed.returns, Deed.drops] using hj
  | @entered n hc hr =>
    have hn := lt_of_unclaimed hc
    rw [word_setWord_eq, slot_setWord, head_setWord]
    by_cases hjn : n = j
    · subst hjn
      simpa [stand, hn] using hj.entered hc hr
    · simpa [stand, hjn] using hj
  | @left n =>
    have hl : 0 < c.count .looking n := hpos _ _ rfl
    have hn : n < c.chain.nodes.size := by
      obtain ⟨a, -, ha⟩ := (h.kept n).holds_of_looking hl
      exact lt_of_holds ha
    rw [word_setWord_eq, slot_setWord, head_setWord]
    by_cases hjn : n = j
    · subst hjn
      simpa [stand, hn] using hj.left hl
    · simpa [stand, hjn] using hj

/-- A reader decides on a word that it has seen. -/
theorem fit_step {c : Chain α} {v u : Act σ α} (hv : v.Fit) (hu : (v.step c).2 = some u) : u.Fit := by
  cases v with
  | push p =>
    cases hp : (p.step c).2 <;> simp only [Act.step, Act.onward, hp] at hu <;> cases hu
    trivial
  | pop p =>
    cases hp : (p.step c).2 <;> simp only [Act.step, Act.onward, hp] at hu <;> cases hu
    trivial
  | walk aim w =>
    obtain ⟨stage, n, s, m⟩ := w
    cases stage with
    | enter e =>
      rcases Entry.step_cases hv (c.node n).word with ⟨e', he, hf⟩ | he | ⟨f, he⟩ | ⟨he, -⟩ <;>
        simp only [Act.step, Walk.step, he, Act.onward] at hu <;> cases hu
      · exact hf
      · trivial
      · trivial
    | readHead =>
      simp only [Act.step, Walk.step] at hu
      split at hu <;> cases hu
      trivial
    | seek =>
      simp only [Act.step, Walk.step] at hu
      split at hu <;> cases hu
      trivial
    | inside =>
      simp only [Act.step, Walk.step] at hu
      split at hu <;> cases hu
      trivial
    | leave seen =>
      simp only [Act.step, Walk.step] at hu
      split at hu
      · cases hw : Walk.afterSight ⟨.leave seen, n, s, m⟩ seen aim with
        | done r =>
          rw [hw] at hu
          cases hu
        | more u' =>
          rw [hw] at hu
          cases hu
          rcases afterSight_more hw with rfl | rfl <;> trivial
      · cases hu
    | claim =>
      simp only [Act.step, Walk.step, Act.onward] at hu
      cases hu
      cases (c.node n).word.claim.2 <;> trivial
    | drain d =>
      simp only [Act.step, Walk.step] at hu
      split at hu <;> cases hu <;> trivial
    | lost =>
      cases hu
      trivial
    | drop =>
      simp only [Act.step, Walk.step] at hu
      split at hu
      · split at hu <;> cases hu
        trivial
      · cases hu

theorem Custody.turn {c : Crew σ α} (h : c.Custody) {k : Nat} {v : Act σ α} (hk : c.threads[k]? = some (some v)) :
    (c.turn k v).Custody := by
  have hmem := List.mem_of_getElem? hk
  refine ⟨h.strung.turn hk, ?_, h.kept_turn hk, ?_⟩
  · intro w hw
    rcases List.mem_or_eq_of_mem_set hw with hw | hw
    · exact h.fit w hw
    · exact fit_step (h.fit v hmem) hw.symm
  · intro j n a hj
    have hitem : c.item n = some a := by
      rcases List.mem_append.mp hj with hj | hj
      · exact h.genuine j n a hj
      · have hd : v.deed? c.chain = some (.returned n a) := by simpa using (by simpa using hj : _ ∧ _).1
        obtain ⟨rfl, ha⟩ := Act.deed?_returned hd
        obtain ⟨b, hb, hs⟩ := (h.kept n).holds_of_holding (count_pos hk rfl)
        rw [show (c.stand n).slot = _ from ha] at hs
        cases hs
        exact hb
    rw [item_turn, hitem]
    rfl

theorem Custody.enlist {c : Crew σ α} (h : c.Custody) {k : Nat} (hk : c.threads[k]? = some none) (e : Errand σ α) :
    (c.enlist k e.act).Custody := by
  have hcount : ∀ r n, (c.enlist k e.act).count r n = c.count r n := by
    intro r n
    have hset := Crowd.countP_set_add (b := some e.act) (Act.inRole r n) hk
    have hnone : Act.inRole r n (none : Option (Act σ α)) = false := by simp [Act.inRole]
    have hsome : Act.inRole r n (some e.act) = false := by
      cases e <;> simp [Act.inRole, Errand.act, Act.role?, Walk.start, Walk.resume]
    rw [hnone, hsome] at hset
    exact hset
  refine ⟨h.strung.enlist hk e, ?_, ?_, h.genuine⟩
  · intro v hv
    rcases List.mem_or_eq_of_mem_set hv with hv | hv
    · exact h.fit v hv
    · cases hv
      cases e <;> trivial
  · intro n
    have hstand : (c.enlist k e.act).stand n = c.stand n := by
      simp only [stand, hcount]
      rfl
    rw [hstand]
    exact h.kept n

theorem custody_start (n : Nat) : (start n : Crew σ α).Custody := by
  refine ⟨strung_start n, forall_start n, ?_, nofun⟩
  intro j
  have hnode : (Chain.empty : Chain α).node j = .sentinel := by
    cases j with
    | zero => rfl
    | succ j => exact node_of_le _ (Nat.succ_pos j)
  have hcount : ∀ r, (start n : Crew σ α).count r j = 0 := by
    intro r
    simp [count, start, List.countP_replicate, Act.inRole]
  have hstand : (start n : Crew σ α).stand j = ⟨.owned, .never, none, decide (0 < j), 0, 0, 0, 0, 0, 0, 0⟩ := by
    simp only [stand, hcount]
    simp only [start, hnode]
    rfl
  rw [hstand]
  exact Stand.kept_empty _

theorem custody_step (c : Crew σ α) (e : Event σ α) (h : c.Custody) : (c.step e).Custody :=
  step_keeps h (fun _ e hk => h.enlist hk e) (fun _ _ hk => h.turn hk) e

theorem custody_run {c : Crew σ α} (h : c.Custody) (es : List (Event σ α)) : (c.run es).Custody :=
  run_keeps custody_step h es

end Crew

end BusyWait
