import BusyWait.Proofs.Queue.Receipts

/-
  BusyWait.Proofs.Queue.Ownership — every element is consumed once.

  Any calls of a queue, under way together or one after the other, and at the end the queue
  is dropped. An element that was put in is moved out by one dequeue, or dropped in place
  by one removal, or dropped with the queue; clones do not count (`Owned`).

  Whether a node has its element is not written down anywhere: it is inferred from the
  writer's bit of its word. What makes this right where nobody is in a call is that then
  every claim was followed by its consumption (`Custody.quiet`). So what neither was moved
  out nor dropped is what the chain stores (`live_eq_left`), and dropping the chain drops
  just that (`Quiet.node_drop`).

  - `elements_consumed_once`: all this after every run.
-/

namespace BusyWait

variable {σ α : Type}

open Chain

/-! ## Dropping a chain -/

namespace Node

/-- Dropping a node does not touch its word. -/
@[simp] theorem word_drop (n : Node α) : n.drop.word = n.word := by
  unfold drop
  split <;> rfl

theorem drop_drop (n : Node α) : n.drop.drop = n.drop := by
  unfold drop
  cases h : n.slot <;> simp [h]

end Node

namespace Chain

/-- What the drop of a chain does with one node. -/
def dropAt (c : Chain α) (i : Nat) : Chain α := if (c.node i).claimed then c else c.modify i Node.drop

theorem node_dropAt (c : Chain α) (i j : Nat) : (c.dropAt i).node j =
    if i = j ∧ (c.node j).claimed = false then (c.node j).drop else c.node j := by
  unfold dropAt
  by_cases hc : (c.node i).claimed = true
  · rw [if_pos hc]
    by_cases hij : i = j
    · subst hij
      simp [hc]
    · simp [hij]
  · rw [if_neg hc, node_modify_eq]
    by_cases hij : i = j
    · subst hij
      have hi : i < c.nodes.size := lt_of_unclaimed (Bool.not_eq_true _ ▸ hc)
      simp [hc, hi]
    · simp [hij]

theorem claimed_dropAt (c : Chain α) (i j : Nat) : ((c.dropAt i).node j).claimed = (c.node j).claimed := by
  rw [node_dropAt]
  split <;> simp [Node.claimed]

/-- Of the nodes that are listed, those are dropped that are not claimed. -/
theorem node_foldl_dropAt (c : Chain α) (is : List Nat) (j : Nat) : (is.foldl dropAt c).node j =
    if j ∈ is ∧ (c.node j).claimed = false then (c.node j).drop else c.node j := by
  induction is generalizing c with
  | nil => simp
  | cons i is ih =>
    rw [List.foldl_cons, ih, claimed_dropAt, node_dropAt]
    by_cases hij : i = j
    · subst hij
      by_cases hc : (c.node i).claimed = false <;> simp [hc, Node.drop_drop]
    · simp [hij, Ne.symm hij]

theorem drop_eq (c : Chain α) : c.drop = (c.head :: c.linked).foldl dropAt c := rfl

/-- The elements that are stored, node by node. -/
theorem stored_eq_countP (c : Chain α) : c.stored = (List.range c.nodes.size).countP fun i => (c.elem i).isSome := by
  have hnodes : c.nodes.toList = (List.range c.nodes.size).map c.node := by
    apply List.ext_getElem
    · simp
    · intro i hi hi'
      simp at hi
      simp [node, hi]
  rw [stored, ← Array.countP_eq_size_filter, ← Array.countP_toList, hnodes, List.countP_map]
  rfl

namespace Quiet

variable {c : Chain α}

theorem stored_eq (h : c.Quiet) : c.stored = c.live.length := by
  have hhead := h.head
  have hsplit : List.range c.nodes.size =
      List.range' 0 (c.head + 1) ++ List.range' (c.head + 1) (c.nodes.size - (c.head + 1)) := by
    rw [List.range_eq_range', show c.nodes.size = c.head + 1 + (c.nodes.size - (c.head + 1)) by omega,
      ← List.range'_append_1]
    simp
  have hbefore : (List.range' 0 (c.head + 1)).countP (fun i => (c.elem i).isSome) = 0 := by
    rw [List.countP_eq_zero]
    intro i hi
    rw [h.passed i (by simp at hi; omega)]
    simp
  rw [stored_eq_countP, hsplit, List.countP_append, hbefore, Nat.zero_add, live, liveFrom,
    List.length_filterMap_eq_countP]
  simp

/-- A node of which nothing is left after the drop is one that holds an element. -/
theorem unclaimed_iff (h : c.Quiet) {i : Nat} :
    (i ∈ c.head :: c.linked ∧ (c.node i).claimed = false) ↔ (c.elem i).isSome = true := by
  constructor
  · intro hi
    have hlt := lt_of_unclaimed hi.2
    rw [h.claimed hlt] at hi
    simpa using hi.2
  · intro hi
    obtain ⟨a, ha⟩ := Option.isSome_iff_exists.mp hi
    have hlt := lt_of_elem ha
    refine ⟨?_, by rw [h.claimed hlt, ha]; rfl⟩
    rw [h.linked, List.mem_cons, List.mem_range'_1]
    by_cases hhead : i ≤ c.head
    · rw [h.passed i hhead] at ha
      cases ha
    · omega

/-- The drop of the chain drops each element that is stored, and changes nothing else. -/
theorem node_drop (h : c.Quiet) (i : Nat) :
    c.drop.node i = if (c.elem i).isSome then { c.node i with slot := .dropped } else c.node i := by
  rw [drop_eq, node_foldl_dropAt]
  by_cases hi : (c.elem i).isSome = true
  · obtain ⟨a, ha⟩ := Option.isSome_iff_exists.mp hi
    rw [if_pos (h.unclaimed_iff.mpr hi), if_pos hi, Node.drop, slot_of_elem ha]
  · rw [if_neg fun hc => hi (h.unclaimed_iff.mp hc), if_neg hi]

theorem stored_drop (h : c.Quiet) : c.drop.stored = 0 := by
  rw [stored_eq_countP, List.countP_eq_zero]
  intro i _
  rw [elem, h.node_drop]
  split
  · simp [Slot.element?]
  · rename_i hi
    simpa [elem] using hi

end Quiet

end Chain

/-! ## Where nobody is in a call -/

namespace Word

theorem Counts.eq_free {w : Word} (h : w.Counts 0 false) : w = free := by
  have hb := h.bits
  obtain ⟨b⟩ := w
  have hz : b = 0 := UInt32.toNat_inj.mp (by simpa using hb)
  rw [hz]
  rfl

end Word

/-- An access adds an element, or loses one, or none; what is gone does not come back. -/
theorem Effect.later {c c' : Chain α} {r r' : Option (Role × Nat)} {d : Option (Deed α)} (h : Effect c r c' r' d) :
    c.Later c' := by
  have same : ∀ {c' : Chain α}, c.SameItems c' → c.Later c' := by
    intro c' hs
    refine ⟨Nat.le_of_eq hs.size.symm, Nat.le_of_eq hs.head.symm, ?_⟩
    intro i _
    left
    rw [elem, hs.slot, elem]
  have word : ∀ n w, c.Later (c.setWord n w) := fun n w =>
    ⟨by simp, Nat.le_refl _, fun i _ => .inl (elem_setWord ..)⟩
  have slot : ∀ n (s : Slot α), s.element? = none → c.Later (c.setSlot n s) := by
    intro n s hs
    refine ⟨by simp, Nat.le_refl _, ?_⟩
    intro i _
    rw [elem_setSlot _ _ _ hs]
    split
    · exact .inr rfl
    · exact .inl rfl
  cases h with
  | still r hs => exact same hs
  | linked t a =>
    refine ⟨by simp, Nat.le_refl _, ?_⟩
    intro i hi
    left
    rw [elem, (items_link c t a i).2, if_neg (Nat.ne_of_lt hi), elem]
  | passed hn => exact ⟨Nat.le_refl _, Nat.le_succ _, fun _ _ => .inl rfl⟩
  | skipped hs hc => exact same hs
  | won hr hc => exact word _ _
  | drained hw => exact .refl c
  | returned ha => exact slot _ _ rfl
  | dropped ha => exact slot _ _ rfl
  | entered hc hr => exact word _ _
  | left => exact word _ _

namespace Stand

variable {s : Stand α}

/-- An element that nobody has to do with is there and unclaimed, or gone and claimed. -/
theorem Kept.resting (h : s.Kept) {a : α} (hi : s.item = some a) (hp : s.passing = 0) (hd : s.draining = 0)
    (hh : s.holding = 0) (hl : s.looking = 0) :
    s.word = .free ∧ s.slot = .holds a ∧ s.ahead = true ∧ s.returns + s.drops = 0 ∨
    s.word = .owned ∧ s.slot.element? = none ∧ s.returns + s.drops = 1 := by
  have hb := h.balance
  have hcounts := h.counts
  rw [hi, hd, hh] at hb
  rw [hl] at hcounts
  cases hw : s.word.writerPending with
  | false =>
    rw [hw] at hb hcounts
    have hz : s.returns = 0 ∧ s.drops = 0 := by
      simp at hb
      omega
    have hahead := h.pending hw
    rw [hp] at hahead
    refine .inl ⟨hcounts.eq_free, ?_, ?_, by omega⟩
    · rw [h.slot a hi, hz.1, hz.2]
      rfl
    · cases ha : s.ahead with
      | true => rfl
      | false =>
        rw [ha] at hahead
        exact absurd hahead (Nat.lt_irrefl 0)
  | true =>
    rw [hw] at hb hcounts
    have hone : s.returns + s.drops = 1 := by
      simp at hb
      omega
    refine .inr ⟨hcounts.eq_owned_iff.mpr ⟨rfl, rfl⟩, ?_, hone⟩
    rw [h.slot a hi]
    split
    · rfl
    · rw [if_pos (by omega)]
      rfl

end Stand

namespace Crew

variable {c : Crew σ α}

/-- What was put in and is neither moved out nor dropped, with its nodes. -/
def left (c : Crew σ α) : List (Nat × α) :=
  (c.sent.map (·.2)).filter fun x => c.deeds (Deed.returns x.1) + c.deeds (Deed.drops x.1) == 0

/-- Nobody is in a call. -/
def Idle (c : Crew σ α) : Prop := ∀ v ∈ c.threads, v = none

theorem Idle.count (h : c.Idle) (r : Role) (n : Nat) : c.count r n = 0 := by
  rw [Crew.count, List.countP_eq_zero]
  intro v hv
  rw [h v hv]
  simp [Act.inRole]

/-- What becomes of each node's element where nobody is in a call. -/
theorem Custody.resting (h : c.Custody) (hidle : c.Idle) {i : Nat} (h0 : 0 < i) (hi : i < c.chain.nodes.size) :
    ∃ a, c.item i = some a ∧
      ((c.chain.node i).word = .free ∧ c.chain.elem i = some a ∧ c.chain.head < i ∧
        c.deeds (Deed.returns i) + c.deeds (Deed.drops i) = 0 ∨
      (c.chain.node i).word = .owned ∧ c.chain.elem i = none ∧
        c.deeds (Deed.returns i) + c.deeds (Deed.drops i) = 1) := by
  obtain ⟨a, ha⟩ := Option.isSome_iff_exists.mp (h.strung.item_isSome.mpr ⟨h0, hi⟩)
  refine ⟨a, ha, ?_⟩
  rcases (h.kept i).resting ha (hidle.count ..) (hidle.count ..) (hidle.count ..) (hidle.count ..) with
    ⟨hw, hs, hahead, hz⟩ | ⟨hw, hs, hone⟩
  · refine .inl ⟨hw, ?_, of_decide_eq_true hahead, hz⟩
    rw [elem, show (c.chain.node i).slot = .holds a from hs]
    rfl
  · exact .inr ⟨hw, hs, hone⟩

/-- Where nobody is in a call the chain is quiet, if its first node holds nothing. -/
theorem Custody.quiet (h : c.Custody) (h0 : c.chain.elem 0 = none) (hidle : c.Idle) : c.chain.Quiet := by
  refine ⟨h.strung.chain.next, h.strung.chain.head, h.strung.inLine.resting hidle, ?_, ?_⟩
  · intro i hi
    rcases Nat.eq_zero_or_pos i with rfl | hpos
    · have hnone : (c.stand 0).item = none := by
        rw [← Option.not_isSome_iff_eq_none]
        intro hs
        exact absurd (h.strung.item_isSome.mp hs).1 (Nat.lt_irrefl 0)
      rw [h0]
      exact (h.kept 0).absent hnone
    · obtain ⟨a, -, ⟨hw, he, -⟩ | ⟨hw, he, -⟩⟩ := h.resting hidle hpos hi
      · rw [hw, he]
        rfl
      · rw [hw, he]
        rfl
  · intro i hi
    rcases Nat.eq_zero_or_pos i with rfl | hpos
    · exact h0
    · obtain ⟨a, -, ⟨-, -, hlt, -⟩ | ⟨-, he, -⟩⟩ :=
        h.resting hidle hpos (Nat.lt_of_le_of_lt hi h.strung.chain.head)
      · omega
      · exact he

theorem mem_left (h : c.Custody) {x : Nat × α} : x ∈ c.left ↔ c.item x.1 = some x.2 ∧
    c.deeds (Deed.returns x.1) + c.deeds (Deed.drops x.1) = 0 := by
  rw [left, List.mem_filter, beq_iff_eq]
  refine and_congr_left fun _ => ?_
  rw [h.strung.item_eq_some, List.mem_map]
  constructor
  · intro hx
    obtain ⟨y, hy, rfl⟩ := hx
    exact ⟨y.1, hy⟩
  · intro hx
    obtain ⟨i, hi⟩ := hx
    exact ⟨_, hi, rfl⟩

/-- What is left over is what the chain stores. -/
theorem Custody.live_eq_left (h : c.Custody) (hidle : c.Idle) : c.chain.live = c.left := by
  have hleft : Ascending c.left := (ascending_of_map h.strung.sent).filter _
  have hlive : Ascending c.chain.live := pairwise_liveFrom c.chain c.chain.head
  have hmem : ∀ x : Nat × α, x ∈ c.chain.live ↔ x ∈ c.left := by
    intro x
    obtain ⟨i, b⟩ := x
    rw [mem_left h, live, mem_liveFrom]
    constructor
    · intro hx
      have hpos : 0 < i := Nat.lt_of_le_of_lt (Nat.zero_le _) hx.1
      obtain ⟨a, ha, ⟨-, he, -, hz⟩ | ⟨-, he, -⟩⟩ := h.resting hidle hpos (lt_of_elem hx.2)
      · rw [he] at hx
        cases hx.2
        exact ⟨ha, hz⟩
      · rw [he] at hx
        cases hx.2
    · intro hx
      have hsome : (c.item i).isSome = true := by
        rw [hx.1]
        rfl
      obtain ⟨hpos, hi⟩ := h.strung.item_isSome.mp hsome
      obtain ⟨a, ha, ⟨-, he, hlt, -⟩ | ⟨-, -, hone⟩⟩ := h.resting hidle hpos hi
      · cases ha.symm.trans hx.1
        exact ⟨hlt, he⟩
      · exact absurd (hx.2.symm.trans hone) Nat.zero_ne_one
  exact (hlive.sublist hleft fun x => (hmem x).mp).antisymm (hleft.sublist hlive fun x => (hmem x).mpr)

end Crew

/-! ## All calls -/

namespace Job.Serves

variable {call : Call σ α} {j : Job σ α}

theorem takes (h : j.Serves call) (hg : j.got ≠ []) : call.purpose.dequeues = true := by
  cases j with
  | popMany p left got =>
    rw [show call.purpose = .takes from h]
    rfl
  | _ => exact absurd rfl hg

theorem removes (h : j.Serves call) (hr : j.removed ≠ 0) : call.purpose = .removes := by
  cases j with
  | walk aim w reply =>
    rcases h with ⟨-, -, hw⟩ | ⟨hc, -⟩
    · exact absurd hw.removed hr
    · exact hc
  | next w left got => exact absurd h.2.removed hr
  | collect w got => exact absurd h.2.removed hr
  | containsAll item w rest => exact absurd h.2.removed hr
  | _ => exact absurd rfl hr

end Job.Serves

/-- Only dequeues move elements out, and only removals drop any. -/
theorem Progress.Fits.moves {call : Call σ α} {ds : List (Deed α)} {ps : List (Probe α)}
    {x : Progress (Job σ α) (Reply σ α)} (h : x.Fits call ds ps) :
    (Deed.returnedIn ds ≠ [] → call.purpose.dequeues = true) ∧ (Deed.droppedIn ds ≠ [] → call.purpose = .removes) := by
  cases x with
  | done r =>
    have hr : r.Fits call ds ps := h
    constructor
    · intro hne
      rw [hr.returned, Call.handed] at hne
      by_contra hd
      exact hne (if_neg hd)
    · intro hne
      by_contra hd
      exact hne (by simpa [hd] using hr.dropped)
  | more j =>
    have hj : j.Fits call ds ps := h
    constructor
    · intro hne
      rw [hj.returned] at hne
      exact hj.serves.takes hne
    · intro hne
      apply hj.serves.removes
      rw [← hj.dropped]
      exact mt List.length_eq_zero_iff.mp hne

namespace Traffic

variable [BEq α] {t : Traffic σ α}

/-- No call is under way. -/
def Resting (t : Traffic σ α) : Prop :=
  ∀ (k : Nat) (u : Ticket σ α), t.calls[k]? = some (some u) → ∃ r, u.stage = .done r

/-- Every element that was put in, where no call is under way. -/
structure Settled (t : Traffic σ α) : Prop where
  /-- What was neither moved out nor dropped is what the chain stores, and what is counted. -/
  stored : t.shared.chain.toList = t.crew.left.map (·.2)
  length : ∀ init : σ, (Job.start init t.shared .len).1 = .done (.count t.crew.left.length)
  count : t.shared.chain.stored = t.crew.left.length
  /-- The nodes that the drop of the chain finds unclaimed are just theirs, and each holds its element. -/
  found : (t.shared.chain.head :: t.shared.chain.linked).filter (fun i => !(t.shared.chain.node i).claimed) =
    t.crew.left.map (·.1)
  dropped : ∀ x ∈ t.crew.left, (t.shared.chain.node x.1).slot = .holds x.2 ∧
    (t.shared.chain.drop.node x.1).slot = .dropped
  others : ∀ i, i ∉ t.crew.left.map (·.1) → t.shared.chain.drop.node i = t.shared.chain.node i
  /-- An element was moved out once, or dropped in place once, or it is dropped with the chain. -/
  consumed : ∀ i n a, (i, n, a) ∈ t.crew.sent →
    t.crew.deeds (Deed.returns n) + t.crew.deeds (Deed.drops n) + (t.crew.left.map (·.1)).count n = 1
  /-- Nothing stays behind. -/
  gone : t.shared.chain.drop.stored = 0

/-- Who consumes which elements. -/
structure Owned (t : Traffic σ α) : Prop where
  /-- A call that is over has put in what it was given, has moved out what it hands over, and has dropped as many
      elements as it says, if it is a removal. -/
  ended : ∀ (k : Nat) (call : Call σ α) (r : Reply σ α), t.calls[k]? = some (some ⟨call, .done r⟩) →
    Deed.linkedIn (t.deedsOf k) = call.given ∧ Deed.returnedIn (t.deedsOf k) = call.handed r ∧
      (call.purpose = .removes → r.Tells (Deed.droppedIn (t.deedsOf k)).length)
  /-- It has moved out or dropped what it has claimed, and nothing else. -/
  claimed : ∀ (k : Nat) (call : Call σ α) (r : Reply σ α), t.calls[k]? = some (some ⟨call, .done r⟩) →
    ∀ n, (t.deedsOf k).countP (Deed.claims n) =
      (t.deedsOf k).countP (Deed.returns n) + (t.deedsOf k).countP (Deed.drops n)
  /-- Over or not, only dequeues move elements out and only removals drop any, whatever clones others give. -/
  moves : ∀ (k : Nat) (u : Ticket σ α), t.calls[k]? = some (some u) →
    (Deed.returnedIn (t.deedsOf k) ≠ [] → u.call.purpose.dequeues = true) ∧
      (Deed.droppedIn (t.deedsOf k) ≠ [] → u.call.purpose = .removes)
  /-- Who looks at an element, or is to move it out or to drop it, finds it in its node, and it was put in there. -/
  present : ∀ (k : Nat) (u : Ticket σ α) (v : Act σ α) (n : Nat), t.calls[k]? = some (some u) → u.act? = some v →
    v.role? = some (.looking, n) ∨ v.role? = some (.holding, n) →
      ∃ i a, (i, n, a) ∈ t.crew.sent ∧ (t.shared.chain.node n).slot = .holds a
  /-- What is moved out or dropped was put in, and is moved out or dropped once. -/
  returned : ∀ k n a, .returned n a ∈ t.deedsOf k → ∃ i, (i, n, a) ∈ t.crew.sent
  dropped : ∀ k n, .dropped n ∈ t.deedsOf k → ∃ i a, (i, n, a) ∈ t.crew.sent
  once : ∀ n, t.crew.deeds (Deed.returns n) + t.crew.deeds (Deed.drops n) ≤ 1
  settled : t.Resting → t.Settled

theorem Resting.idle (h : t.Resting) : t.crew.Idle := by
  intro v hv
  obtain ⟨k, hk⟩ := List.mem_iff_getElem?.mp hv
  rw [crew, List.getElem?_map] at hk
  obtain ⟨u, hu, rfl⟩ := Option.map_eq_some_iff.mp hk
  cases u with
  | none => rfl
  | some u =>
    obtain ⟨r, hr⟩ := h k u hu
    simp [Ticket.act?, Ticket.job?, hr]

theorem Records.settled (h : t.Records) (h0 : t.shared.chain.elem 0 = none) (hrest : t.Resting) : t.Settled := by
  have hc := h.custody
  have hidle := hrest.idle
  have hq : t.shared.chain.Quiet := hc.quiet h0 hidle
  have hlive : t.shared.chain.live = t.crew.left := hc.live_eq_left hidle
  have hlength : t.shared.chain.length = t.crew.left.length := by rw [hq.length_eq, hlive]
  have hheld : ∀ x ∈ t.crew.left, t.shared.chain.elem x.1 = some x.2 := by
    intro x hx
    exact (mem_liveFrom.mp (hlive ▸ hx)).2
  have hnodes : ∀ i, i ∈ t.crew.left.map (·.1) ↔ (t.shared.chain.elem i).isSome = true := by
    intro i
    rw [List.mem_map]
    constructor
    · intro hi
      obtain ⟨x, hx, rfl⟩ := hi
      rw [hheld x hx]
      rfl
    · intro hi
      obtain ⟨a, ha⟩ := Option.isSome_iff_exists.mp hi
      have hlt : t.shared.chain.head < i := by
        by_contra hle
        rw [hq.passed i (Nat.not_lt.mp hle)] at ha
        cases ha
      exact ⟨(i, a), hlive ▸ mem_liveFrom.mpr ⟨hlt, ha⟩, rfl⟩
  refine ⟨by rw [hq.toList_eq, hlive], ?_, by rw [hq.stored_eq, hlive], ?_, ?_, ?_, ?_, hq.stored_drop⟩
  · intro init
    simp only [Job.start, hlength]
  · have hhead : (t.shared.chain.node t.shared.chain.head).claimed = true := by
      rw [hq.claimed hq.head, hq.passed _ (Nat.le_refl _)]
      rfl
    rw [List.filter_cons_of_neg (by simp [hhead]), ← hlive]
    exact hq.unclaimed
  · intro x hx
    refine ⟨slot_of_elem (hheld x hx), ?_⟩
    rw [hq.node_drop, hheld x hx]
    rfl
  · intro i hi
    rw [hq.node_drop, if_neg fun hs => hi ((hnodes i).mpr hs)]
  · intro i n a hi
    have hnodup : (t.crew.left.map (·.1)).Nodup := by
      rw [← hlive]
      exact (List.pairwise_map.mpr (pairwise_liveFrom ..)).imp Nat.ne_of_lt
    have hitem : t.crew.item n = some a := hc.strung.item_eq_some.mpr ⟨i, hi⟩
    obtain ⟨hpos, hlt⟩ := hc.strung.item_isSome.mp (by rw [hitem]; rfl)
    obtain ⟨b, -, ⟨-, he, -, hz⟩ | ⟨-, he, hone⟩⟩ := hc.resting hidle hpos hlt
    · have hmem : n ∈ t.crew.left.map (·.1) := (hnodes n).mpr (by rw [show t.shared.chain.elem n = _ from he]; rfl)
      rw [hz, List.count_eq_one_of_mem hnodup hmem]
    · have hmem : n ∉ t.crew.left.map (·.1) := by
        rw [hnodes n, show t.shared.chain.elem n = _ from he]
        simp
      rw [hone, List.count_eq_zero_of_not_mem hmem]

theorem Records.owned (h : t.Records) (h0 : t.shared.chain.elem 0 = none) : t.Owned := by
  have hc := h.custody
  have hd := hc.delivers
  have put : ∀ n, 0 < t.crew.deeds (Deed.returns n) + t.crew.deeds (Deed.drops n) → ∃ i a, (i, n, a) ∈ t.crew.sent := by
    intro n hn
    have hb := (hc.kept n).balance
    simp only [Crew.stand] at hb
    have hsome : t.crew.item n ≠ none := by
      intro hnone
      rw [hnone] at hb
      simp at hb
      omega
    obtain ⟨a, ha⟩ := Option.ne_none_iff_exists'.mp hsome
    obtain ⟨i, hi⟩ := hc.strung.item_eq_some.mp ha
    exact ⟨i, a, hi⟩
  refine ⟨?_, ?_, fun k u hk => (h.fits k u hk).moves, ?_, ?_, ?_, ?_, h.settled h0⟩
  · intro k call r hk
    have hr : r.Fits call (t.deedsOf k) (t.probesOf k) := h.fits k _ hk
    refine ⟨hr.linked, hr.returned, ?_⟩
    intro hremoves
    have htells := hr.dropped
    rwa [if_pos hremoves] at htells
  · intro k call r hk n
    exact h.consumes k _ hk n
  · intro k u v n hk hv hrole
    have hthread : t.crew.threads[k]? = some (some v) := by
      rw [crew_thread hk]
      exact congrArg some hv
    exact hd.present v n (List.mem_of_getElem? hthread) hrole
  · intro k n a hmem
    exact hc.strung.item_eq_some.mp (hc.genuine k n a (mem_log.mpr hmem))
  · intro k n hmem
    have hdrop : 0 < t.crew.deeds (Deed.drops n) := List.countP_pos_iff.mpr ⟨_, mem_log.mpr hmem, decide_eq_true rfl⟩
    exact put n (by omega)
  · intro n
    have hb := (hc.kept n).balance
    have hle := Bool.toNat_le (t.crew.item n).isSome
    simp only [Crew.stand] at hb
    omega

/-- The first node never holds anything. -/
theorem sentinel_step (t : Traffic σ α) (e : Event σ α) (h : t.Records ∧ t.shared.chain.elem 0 = none) :
    (t.step e).Records ∧ (t.step e).shared.chain.elem 0 = none := by
  refine ⟨records_step t e h.1, ?_⟩
  refine step_keeps (P := fun t' => t'.shared.chain.elem 0 = none) h.2 ?_ ?_ ?_ ?_ e
  · intro k init call _
    exact h.2
  · intro k call j hk
    have hchain : (t.turn k call j).shared.chain = j.act?.elim t.shared.chain fun v => (v.step t.shared.chain).1 :=
      (Job.after_goes t.shared j).chain
    rw [hchain]
    cases hj : j.act? with
    | none => exact h.2
    | some v =>
      have hlater := (h.1.ready hk v hj).effect.later
      have hsize : 0 < t.shared.chain.nodes.size := Nat.lt_of_le_of_lt (Nat.zero_le _) h.1.custody.strung.chain.head
      exact (hlater.elem 0 hsize).elim (fun he => he.trans h.2) id
  · intro flag raised
    rw [set]
    split <;> exact h.2
  · intro time
    exact h.2

end Traffic

/-- Whatever calls there are of a queue, and however their accesses interleave with each other, with signals and with
    the clock: every element that is put in is consumed once, by the call that hands it over or removes it, or with
    the queue. -/
theorem elements_consumed_once [BEq α] (n m : Nat) (es : List (Traffic.Event σ α)) :
    ((Traffic.start n m).run es).Owned := by
  have hrun := Traffic.run_keeps Traffic.sentinel_step (t := Traffic.start n m) ⟨Traffic.records_start n m, rfl⟩ es
  exact hrun.1.owned hrun.2

/-- Of four elements one is taken, one is removed before the question breaks off, and two are left. -/
example :
    let ask : Ask Unit Nat := fun s a => (s, if a = 3 then .error .predicate else .ok (a == 2))
    let es : List (Traffic.Event Unit Nat) := .begin 0 () (.addAll [1, 2, 3, 4]) :: .replicate 20 (.turn 0) ++
      .begin 1 () .poll :: .replicate 12 (.turn 1) ++ .begin 2 () (.removeWhere ask none) :: .replicate 24 (.turn 2) ++
      .begin 3 () .peek :: .replicate 12 (.turn 3)
    ((Traffic.start 4 0).run es).crew.left = [(3, 3), (4, 4)] := by decide +kernel

end BusyWait
