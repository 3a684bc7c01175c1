import BusyWait.Proofs.Queue.Calls

/-
  BusyWait.Proofs.Queue.Iterators — iterators that stay open while the queue changes.

  An iterator keeps the node that it has reached. What comes after that node is linked
  behind it for good, so from wherever it is it gets to the end of the chain, also from
  a node that the head has passed or that is claimed. The invariant (`Follows`): it has
  given nothing that comes after its node, and of what is stored now all that does not.

  - `run_follows`: it holds of every iterator after every run of calls of any kind, and
    steps of the iterators in between.
  - `iterators_consistent`: an iterator gives the first stored element that it has not
    given, and gives none only where it has given all.
-/

namespace BusyWait

variable {σ α : Type}

open Chain

/-- An open iterator: the node that it has reached, and what it has given, with its nodes. -/
structure Cursor (α : Type) where
  node : Nat
  given : List (Nat × α)

namespace Cursor

/-- The element is still to come. -/
def misses (it : Cursor α) (x : Nat × α) : Bool := !(it.given.map (·.1)).contains x.1

/-- What an iterator of this chain has given is what comes up to its node. -/
structure Follows (c : Chain α) (it : Cursor α) : Prop where
  increasing : (it.given.map (·.1)).Pairwise (· < ·)
  passed : ∀ x ∈ it.given, x.1 ≤ it.node
  complete : ∀ x ∈ c.live, x.1 ≤ it.node → x ∈ it.given
  linked : it.node < c.nodes.size

variable {c c' : Chain α} {it : Cursor α}

/-- A new iterator begins at the head. -/
theorem follows_head (h : c.Quiet) : Follows c ⟨c.head, []⟩ := by
  refine ⟨List.Pairwise.nil, fun x hx => (nomatch hx), ?_, h.head⟩
  rintro ⟨j, a⟩ hj hle
  have := (mem_liveFrom.mp hj).1
  simp only at hle
  omega

/-- What others do to the chain does not concern it. -/
theorem Follows.later (hf : it.Follows c) (hl : c.Later c') : it.Follows c' := by
  refine ⟨hf.increasing, hf.passed, ?_, Nat.lt_of_lt_of_le hf.linked hl.size⟩
  rintro ⟨j, a⟩ hj hle
  obtain ⟨hj, ha⟩ := mem_liveFrom.mp hj
  have hn : j < c.nodes.size := Nat.lt_of_le_of_lt hle hf.linked
  refine hf.complete _ (mem_liveFrom.mpr ⟨Nat.lt_of_le_of_lt hl.head hj, ?_⟩) hle
  rcases hl.elem j hn with e | e
  · rw [← e, ha]
  · rw [ha] at e
    cases e

/-- The elements after any node are stored ones. -/
theorem mem_live_of_mem (h : c.Quiet) {i : Nat} {x : Nat × α} (hx : x ∈ c.liveFrom i) : x ∈ c.live := by
  obtain ⟨j, a⟩ := x
  obtain ⟨-, ha⟩ := mem_liveFrom.mp hx
  refine mem_liveFrom.mpr ⟨?_, ha⟩
  by_cases hj : c.head < j
  · exact hj
  · rw [h.passed j (Nat.not_lt.mp hj)] at ha
    cases ha

/-- The elements still to come are those after its node. -/
theorem Follows.misses_iff (hf : it.Follows c) {x : Nat × α} (hx : x ∈ c.live) :
    it.misses x = true ↔ it.node < x.1 := by
  rw [misses, Bool.not_eq_true', ← Bool.not_eq_true, List.contains_iff_mem, List.mem_map]
  constructor
  · intro hn
    by_cases hle : x.1 ≤ it.node
    · exact absurd ⟨x, hf.complete x hx hle, rfl⟩ hn
    · omega
  · rintro hlt ⟨y, hy, hyx⟩
    have := hf.passed y hy
    omega

theorem liveFrom_eq_filter (h : c.Quiet) (i : Nat) : c.liveFrom i = c.live.filter fun x => decide (i < x.1) := by
  rcases Nat.le_total c.head i with hi | hi
  · exact liveFrom_later c hi
  · have hlive := liveFrom_later c hi
    have hall : ∀ x ∈ c.liveFrom i, decide (c.head < x.1) = true := fun x hx => by
      simpa using (mem_liveFrom.mp (mem_live_of_mem h hx : (x.1, x.2) ∈ c.live)).1
    rw [List.filter_eq_self.mpr hall] at hlive
    rw [live, hlive, List.filter_eq_self.mpr]
    rintro ⟨j, a⟩ hj
    simpa using (mem_liveFrom.mp hj).1

/-- The first element after its node is the first that is still to come. -/
theorem Follows.head?_eq (h : c.Quiet) (hf : it.Follows c) : (c.liveFrom it.node).head? = c.live.find? it.misses := by
  rw [liveFrom_eq_filter h, ← List.head?_filter]
  refine congrArg List.head? (List.filter_congr ?_)
  intro x hx
  rw [Bool.eq_iff_iff, hf.misses_iff hx, decide_eq_true_iff]

/-- Where nothing comes after a node, everything stored comes before it. -/
theorem le_of_liveFrom_nil {i : Nat} (hl : c.liveFrom i = []) {x : Nat × α} (hx : x ∈ c.live) : x.1 ≤ i := by
  by_cases hle : x.1 ≤ i
  · exact hle
  · have hx' : (x.1, x.2) ∈ c.liveFrom i := mem_liveFrom.mpr ⟨Nat.not_le.mp hle, (mem_liveFrom.mp hx).2⟩
    rw [hl] at hx'
    cases hx'

/-- An iterator that gives the next element. -/
theorem Follows.given (hf : it.Follows c) {x : Nat × α} {l : List (Nat × α)} (hl : c.liveFrom it.node = x :: l) :
    Follows c ⟨x.1, it.given ++ [x]⟩ := by
  have hx : (x.1, x.2) ∈ c.liveFrom it.node := by
    rw [hl]
    exact List.mem_cons_self
  obtain ⟨hlt, ha⟩ := mem_liveFrom.mp hx
  refine ⟨?_, ?_, ?_, lt_of_elem ha⟩
  · rw [List.map_append, List.pairwise_append]
    refine ⟨hf.increasing, List.pairwise_singleton .., ?_⟩
    intro i hi j hj
    obtain ⟨y, hy, rfl⟩ := List.mem_map.mp hi
    obtain rfl : j = x.1 := by simpa using hj
    have := hf.passed y hy
    omega
  · intro y hy
    rcases List.mem_append.mp hy with hy | hy
    · have := hf.passed y hy
      simp only
      omega
    · obtain rfl : y = x := by simpa using hy
      exact Nat.le_refl _
  · intro y hy hle
    by_cases hle' : y.1 ≤ it.node
    · exact List.mem_append_left _ (hf.complete y hy hle')
    · have hy' : (y.1, y.2) ∈ c.liveFrom it.node :=
        mem_liveFrom.mpr ⟨Nat.not_le.mp hle', (mem_liveFrom.mp hy).2⟩
      rw [hl] at hy'
      rcases List.mem_cons.mp hy' with rfl | hy'
      · exact List.mem_append_right _ List.mem_cons_self
      · have hp := pairwise_liveFrom c it.node
        rw [hl, List.pairwise_cons] at hp
        have := hp.1 y hy'
        simp only at hle
        omega

/-- An iterator with nothing to give goes to the last node. -/
theorem Follows.ended (hf : it.Follows c) (hl : c.liveFrom it.node = []) :
    Follows c { it with node := c.nodes.size - 1 } := by
  have hn := hf.linked
  refine ⟨hf.increasing, ?_, ?_, by simp only; omega⟩
  · intro x hx
    have := hf.passed x hx
    simp only
    omega
  · intro x hx _
    exact hf.complete x hx (le_of_liveFrom_nil hl hx)

theorem nextFrom_end {i : Nat} (hi : i < c.nodes.size) (hl : c.liveFrom i = []) : c.nextFrom i = c.nodes.size - 1 := by
  rw [nextFrom, hl]
  show max i (c.nodes.size - 1) = _
  omega

theorem nextFrom_cons {i : Nat} {x : Nat × α} {l : List (Nat × α)} (hl : c.liveFrom i = x :: l) :
    c.nextFrom i = x.1 := by
  rw [nextFrom, hl]
  rfl

variable [BEq α]

/-- One step of the iterator. -/
def next (s : Shared α) (it : Cursor α) : Shared α × Option (Reply Unit α) := s.perform () (.next it.node none)

theorem next_eq {s : Shared α} (h : s.chain.Quiet) (it : Cursor α) : it.next s =
    (s, some (.stepped (.inl (((s.chain.liveFrom it.node).head?).map (·.2))) (s.chain.nextFrom it.node))) :=
  Shared.perform_of_lands rfl (Job.copy_lands s.flags s.now h it.node () _)

/-- From the last node an iterator comes to an element that is put in then. -/
theorem next_added {s : Shared α} (h : s.chain.Quiet) (a : α) (given : List (Nat × α)) : ∃ s' node,
    next (s.perform () (.add a : Call Unit α)).1 ⟨s.chain.nodes.size - 1, given⟩ =
      (s', some (.stepped (.inl (some a)) node)) := by
  have hadd : s.perform () (.add a) = (⟨s.chain.pushed a, s.flags, s.now⟩, some (.yes true)) :=
    Shared.perform_of_lands rfl (Job.push_lands s.flags s.now h a [] _)
  have hn : s.chain.nodes.size - 1 + 1 = s.chain.nodes.size := by
    have := h.head
    omega
  have ha : (s.chain.pushed a).elem (s.chain.nodes.size - 1 + 1) = some a := by
    rw [elem_pushed, if_pos hn]
  have hlive : (s.chain.pushed a).liveFrom (s.chain.nodes.size - 1) = [(s.chain.nodes.size, a)] := by
    rw [liveFrom_of_some ha, liveFrom_end (by rw [size_pushed]; omega), hn]
  rw [hadd, next_eq (quiet_pushed h a), hlive]
  exact ⟨_, _, rfl⟩

end Cursor

/-- A queue, and the iterators that are open on it. -/
structure Browse (α : Type) where
  shared : Shared α
  iters : List (Cursor α)

namespace Browse

inductive Event (σ α : Type) where
  /-- A call, with the state of its question. -/
  | call (init : σ) (c : Call σ α)
  /-- The flags of the interrupts and the clock change. -/
  | moment (flags : Array Bool) (now : Nat)
  /-- An iterator is opened. -/
  | iter
  /-- A step of iterator `k`. -/
  | next (k : Nat)

variable [BEq α]

def step (b : Browse α) : Event σ α → Browse α
  | .call init c => { b with shared := (b.shared.perform init c).1 }
  | .moment flags now => { b with shared := ⟨b.shared.chain, flags, now⟩ }
  | .iter => { b with iters := b.iters ++ [⟨b.shared.chain.head, []⟩] }
  | .next k =>
    match b.iters[k]? with
    | none => b
    | some it =>
      match it.next b.shared with
      | (s, some (.stepped (.inl (some a)) node)) => ⟨s, b.iters.set k ⟨node, it.given ++ [(node, a)]⟩⟩
      | (s, some (.stepped (.inl none) node)) => ⟨s, b.iters.set k { it with node := node }⟩
      | (s, _) => { b with shared := s }

def run (b : Browse α) (es : List (Event σ α)) : Browse α := es.foldl step b

/-- An empty queue. -/
def start : Browse α := ⟨.empty, []⟩

/-- The queue is at rest, and every iterator follows it. -/
structure Follows (b : Browse α) : Prop where
  quiet : b.shared.chain.Quiet
  iters : ∀ it ∈ b.iters, it.Follows b.shared.chain

theorem step_follows (b : Browse α) (e : Event σ α) (h : b.Follows) : (b.step e).Follows := by
  cases e with
  | call init c =>
    obtain ⟨hq, hl⟩ := Shared.perform_quiet init h.quiet c
    exact ⟨hq, fun it hit => (h.iters it hit).later hl⟩
  | moment flags now => exact ⟨h.quiet, h.iters⟩
  | iter =>
    refine ⟨h.quiet, ?_⟩
    intro it hit
    rcases List.mem_append.mp hit with hit | hit
    · exact h.iters it hit
    · obtain rfl : it = ⟨b.shared.chain.head, []⟩ := by simpa using hit
      exact Cursor.follows_head h.quiet
  | next k =>
    simp only [step]
    cases hk : b.iters[k]? with
    | none => exact h
    | some it =>
      have hf := h.iters it (List.mem_of_getElem? hk)
      have hset : ∀ it', it'.Follows b.shared.chain → Follows ⟨b.shared, b.iters.set k it'⟩ := fun it' hit' =>
        ⟨h.quiet, fun j hj => (List.mem_or_eq_of_mem_set hj).elim (h.iters j) fun e => e ▸ hit'⟩
      simp only [Cursor.next_eq h.quiet]
      cases hl : b.shared.chain.liveFrom it.node with
      | nil =>
        have hend := Cursor.nextFrom_end hf.linked hl
        simp only [List.head?_nil, Option.map_none, hend]
        exact hset _ (hf.ended hl)
      | cons x l =>
        have hx := Cursor.nextFrom_cons hl
        simp only [List.head?_cons, Option.map_some, hx]
        exact hset _ (hf.given hl)

theorem run_follows {b : Browse α} (h : b.Follows) (es : List (Event σ α)) : (b.run es).Follows := by
  induction es generalizing b with
  | nil => exact h
  | cons e es ih => exact ih (step_follows b e h)

/-- What iterators promise, whatever happens to the queue between their steps. -/
structure Consistent (b : Browse α) : Prop where
  /-- What is stored is what `live` lists, each element with the number of its node. -/
  stored : b.shared.chain.toList = b.shared.chain.live.map (·.2)
  /-- Elements come in the order in which they were put in, and none twice. -/
  increasing : ∀ it ∈ b.iters, (it.given.map (·.1)).Pairwise (· < ·)
  /-- An iterator gives the first stored element that it has not given, and changes nothing. -/
  first : ∀ it ∈ b.iters, ∃ node, it.next b.shared =
    (b.shared, some (.stepped (.inl ((b.shared.chain.live.find? it.misses).map (·.2))) node))
  /-- What it gives is stored at that moment, in the node that it reaches, and comes after all that it has given. -/
  gives : ∀ it ∈ b.iters, ∀ s a node, it.next b.shared = (s, some (.stepped (.inl (some a)) node)) →
    (node, a) ∈ b.shared.chain.live ∧ it.node < node ∧ ∀ x ∈ it.given, x.1 < node
  /-- Where it gives none, nothing stored comes after its node, and it has given all that is stored, once each. -/
  ends : ∀ it ∈ b.iters, ∀ s node, it.next b.shared = (s, some (.stepped (.inl none) node)) →
    ∀ x ∈ b.shared.chain.live, x.1 ≤ it.node ∧ x ∈ it.given ∧ (it.given.map (·.1)).count x.1 = 1
  /-- And if an element is put in then, it gives that next. -/
  resumes : ∀ it ∈ b.iters, ∀ s node, it.next b.shared = (s, some (.stepped (.inl none) node)) →
    ∀ a, ∃ s' node', Cursor.next (s.perform () (.add a : Call Unit α)).1 ⟨node, it.given⟩ =
      (s', some (.stepped (.inl (some a)) node'))

theorem Follows.consistent {b : Browse α} (h : b.Follows) : b.Consistent := by
  have hnext : ∀ it ∈ b.iters, ∀ s r node, it.next b.shared = (s, some (.stepped (.inl r) node)) →
      s = b.shared ∧ r = ((b.shared.chain.liveFrom it.node).head?).map (·.2) ∧
        node = b.shared.chain.nextFrom it.node := by
    intro it _ s r node hs
    rw [Cursor.next_eq h.quiet] at hs
    cases hs
    exact ⟨rfl, rfl, rfl⟩
  have nil_of : ∀ {i}, none = ((b.shared.chain.liveFrom i).head?).map (·.2) → b.shared.chain.liveFrom i = [] :=
    fun hr => List.head?_eq_none_iff.mp (Option.map_eq_none_iff.mp hr.symm)
  refine ⟨h.quiet.toList_eq, fun it hit => (h.iters it hit).increasing, ?_, ?_, ?_, ?_⟩
  · intro it hit
    rw [Cursor.next_eq h.quiet, (h.iters it hit).head?_eq h.quiet]
    exact ⟨_, rfl⟩
  · intro it hit s a node hs
    obtain ⟨-, hr, rfl⟩ := hnext it hit _ _ _ hs
    cases hl : b.shared.chain.liveFrom it.node with
    | nil =>
      rw [hl] at hr
      cases hr
    | cons x l =>
      rw [hl] at hr
      cases hr
      have hx : (x.1, x.2) ∈ b.shared.chain.liveFrom it.node := by
        rw [hl]
        exact List.mem_cons_self
      have hlt := (mem_liveFrom.mp hx).1
      rw [Cursor.nextFrom_cons hl]
      refine ⟨Cursor.mem_live_of_mem h.quiet hx, hlt, ?_⟩
      intro y hy
      have := (h.iters it hit).passed y hy
      omega
  · intro it hit s node hs x hx
    obtain ⟨-, hr, -⟩ := hnext it hit _ _ _ hs
    have hf := h.iters it hit
    have hle := Cursor.le_of_liveFrom_nil (nil_of hr) hx
    have hin := hf.complete x hx hle
    have hnodup : (it.given.map (·.1)).Nodup := hf.increasing.imp fun hij => Nat.ne_of_lt hij
    refine ⟨hle, hin, ?_⟩
    rw [hnodup.count, if_pos (List.mem_map.mpr ⟨x, hin, rfl⟩)]
  · intro it hit s node hs a
    obtain ⟨rfl, hr, rfl⟩ := hnext it hit _ _ _ hs
    rw [Cursor.nextFrom_end (h.iters it hit).linked (nil_of hr)]
    exact Cursor.next_added h.quiet a it.given

end Browse

/-- Whatever calls are made between the steps of any number of iterators: they keep what
    they promise. -/
theorem iterators_consistent (es : List (Browse.Event σ α)) [BEq α] :
    ((Browse.start : Browse α).run es).Consistent := by
  refine (Browse.run_follows ⟨quiet_empty, ?_⟩ es).consistent
  intro it hit
  cases hit

/-- The element under the iterator and the one after it leave, and one more comes. -/
example :
    let es : List (Browse.Event Unit Nat) :=
      [.call () (.addAll [5, 6, 7]), .iter, .next 0, .call () (.pollMany 2), .next 0, .next 0, .call () (.add 8),
        .next 0]
    (Browse.start.run es).iters.map (·.given) = [[(1, 5), (3, 7), (4, 8)]] := by decide

end BusyWait
