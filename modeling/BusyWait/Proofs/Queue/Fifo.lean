import BusyWait.Proofs.Queue.Calls

/-
  BusyWait.Proofs.Queue.Fifo — the queue is a list.

  Used by one caller at a time the queue answers each operation as a list of elements
  does that is filled at its end and emptied at its front (`Op.onList`), and it stores what
  that list then stores. Claimed nodes, wherever they are in the chain, are not seen.

  - `perform_onList`: one operation.
  - `queue_refines_list`: every sequence of them, from the start on.
-/

namespace BusyWait

variable {α : Type}

/-- An operation of a queue, with a pure question where it asks one. -/
inductive Op (α : Type) where
  | add (a : α)
  | offer (a : α)
  | offerTimeout (a : α) (timeout : Duration)
  | put (a : α)
  | addAll (as : List α)
  | poll
  | removeFirst
  | take (flag : Nat)
  | pollTimeout (timeout : Duration) (flag : Nat)
  | peek
  | element
  /-- So many steps of a new iterator. -/
  | iter (n : Nat)
  | toList
  | contains (a : α)
  | containsAll (as : List α)
  | removeItem (a : α)
  | removeAll (as : List α)
  | retainAll (as : List α)
  | retain (keep : α → Bool)
  | clear
  | len
  | isEmpty
  | drainTo (sink : List α)
  | drainToMax (sink : List α) (max : Nat)

namespace Op

variable [BEq α]

/-- The operation on a list, and the answer. -/
def onList (l : List α) : Op α → List α × Reply Unit α
  | .add a | .offer a | .offerTimeout a _ => (l ++ [a], .yes true)
  | .put a => (l ++ [a], .done)
  | .addAll as => (l ++ as, .yes (!as.isEmpty))
  | .poll => (l.tail, .element l.head?)
  | .removeFirst | .take _ => (l.tail, .result (l.head?.elim (.error .empty) .ok))
  | .pollTimeout _ _ => (l.tail, .timed (.ok l.head?))
  | .peek => (l, .element l.head?)
  | .element => (l, .result (l.head?.elim (.error .empty) .ok))
  | .iter n => (l, .elements ((List.range n).map (l[·]?)))
  | .toList => (l, .all l)
  | .contains a => (l, .yes (l.any (· == a)))
  | .containsAll as => (l, .yes (as.all fun a => l.any (· == a)))
  | .removeItem a => (l.eraseP (· == a), .yes (l.any (· == a)))
  | .removeAll as => (l.filter fun x => !as.any (· == x), .yes (l.any fun x => as.any (· == x)))
  | .retainAll as => (l.filter fun x => as.any (· == x), .yes (l.any fun x => !as.any (· == x)))
  | .retain keep => (l.filter keep, .retained (.ok (l.any fun x => !keep x)) ())
  | .clear => ([], .done)
  | .len => (l, .count l.length)
  | .isEmpty => (l, .yes l.isEmpty)
  | .drainTo sink => (l, .drained 0 sink)
  | .drainToMax sink _ => (l, .drainedMax (.error (.unsupported "drain_to_max")) sink)

/-- It waits where no element is. -/
def wants : Op α → Bool
  | .take _ | .pollTimeout _ _ => true
  | _ => false

/-- The operation as a call; a new iterator begins at the head. -/
def call (c : Chain α) : Op α → Call Unit α
  | .add a => .add a
  | .offer a => .offer a
  | .offerTimeout a timeout => .offerTimeout a timeout
  | .put a => .put a
  | .addAll as => .addAll as
  | .poll => .poll
  | .removeFirst => .removeFirst
  | .take flag => .take flag
  | .pollTimeout timeout flag => .pollTimeout timeout flag
  | .peek => .peek
  | .element => .element
  | .iter n => .next c.head (some n)
  | .toList => .toList
  | .contains a => .contains a
  | .containsAll as => .containsAll as
  | .removeItem a => .removeItem a
  | .removeAll as => .removeAll as
  | .retainAll as => .retainAll as
  | .retain keep => .retain (Job.plain keep)
  | .clear => .clear
  | .len => .len
  | .isEmpty => .isEmpty
  | .drainTo sink => .drainTo sink
  | .drainToMax sink max => .drainToMax sink max

end Op

/-- An answer as the caller sees it: the node of an iterator is not his. -/
def Reply.seen {σ : Type} : Reply σ α → Reply σ α
  | .stepped (.inr as) _ => .elements as
  | r => r

theorem asked_eq (n : Nat) (l : List α) : Job.asked n l = (List.range n).map (l[·]?) := by
  induction n generalizing l with
  | zero => rfl
  | succ n ih =>
    rw [Job.asked, ih, List.range_succ_eq_map, List.map_cons, List.map_map, List.head?_eq_getElem?]
    refine congrArg _ (List.map_congr_left ?_)
    intro i _
    simp

theorem emptyOr_eq (a : Option α) : Job.emptyOr a = a.elim (.error .empty) .ok := by
  cases a <;> rfl

variable [BEq α]

open Chain

/-- The operation with nobody else acting is the operation on the list. -/
def Op.Refines (op : Op α) (s : Shared α) : Prop :=
  ∃ s' r, s.perform () (op.call s.chain) = (s', some r) ∧ s'.chain.toList = (op.onList s.chain.toList).1 ∧
    r.seen = (op.onList s.chain.toList).2

namespace Op

variable {s : Shared α} {op : Op α}

theorem refines_done {r : Reply Unit α} (hj : (Job.start () s (op.call s.chain)).1 = .done r)
    (ho : op.onList s.chain.toList = (s.chain.toList, r.seen)) : op.Refines s :=
  ⟨_, _, Shared.perform_of_done hj, by rw [ho], by rw [ho]⟩

/-- A job that only looks. -/
theorem refines_look {j : Job Unit α} {r : Reply Unit α} (hj : (Job.start () s (op.call s.chain)).1 = .more j)
    (hl : j.Lands s s (some r)) (ho : op.onList s.chain.toList = (s.chain.toList, r.seen)) : op.Refines s :=
  ⟨_, _, Shared.perform_of_lands hj hl, by rw [ho], by rw [ho]⟩

variable (h : s.chain.Quiet)

include h

theorem refines_push {a : α} {rest : List α} {reply : Reply Unit α}
    (hj : (Job.start () s (op.call s.chain)).1 = .more (.push (.readTail a) rest reply))
    (ho : op.onList s.chain.toList = (s.chain.toList ++ a :: rest, reply.seen)) : op.Refines s := by
  refine ⟨_, _, Shared.perform_of_lands hj (Job.push_lands s.flags s.now h a rest reply), ?_, by rw [ho]⟩
  rw [ho]
  exact toList_pushAll h _

theorem refines_pop {reply : Option α → Reply Unit α}
    (hj : (Job.start () s (op.call s.chain)).1 = .more (.pop .readHead reply))
    (ho : op.onList s.chain.toList = (s.chain.toList.tail, (reply s.chain.toList.head?).seen)) : op.Refines s := by
  obtain ⟨c', hc, hl⟩ := Job.pop_lands s.flags s.now h reply
  refine ⟨_, _, Shared.perform_of_lands hj hl, ?_, ?_⟩
  · rw [ho]
    exact hc.toList h
  · rw [ho, h.toList_eq, List.head?_map]

theorem refines_walk {aim : Aim Unit α} {reply : Walked Unit α → Reply Unit α} {js : List Nat} {e : Walked Unit α}
    (hj : (Job.start () s (op.call s.chain)).1 = .more (.walk aim (.start ()) reply))
    (hw : Walk.whole aim s.chain () = (js, e))
    (ho : op.onList s.chain.toList = ((s.chain.scrapAll js).toList, (reply e).seen)) : op.Refines s := by
  have hl := Job.walk_lands s.flags s.now h aim () reply
  rw [hw] at hl
  exact ⟨_, _, Shared.perform_of_lands hj hl, by rw [ho], by rw [ho]⟩

/-- A removal of all elements of which the answer is yes. -/
theorem refines_remove (p : α → Bool) {reply : Walked Unit α → Reply Unit α}
    (hj : (Job.start () s (op.call s.chain)).1 = .more (.walk (.remove (Job.plain p) none) (.start ()) reply))
    (ho : ∀ k n, decide (0 < n) = s.chain.toList.any p →
      op.onList s.chain.toList = (s.chain.toList.filter fun a => !p a, (reply ⟨k, (), .removed n⟩).seen)) :
    op.Refines s := by
  obtain ⟨js, k, n, hk, hn, hl⟩ := whole_removeAll h p ()
  apply refines_walk h hj hk
  rw [ho k n hn, hl]

/-- A wait where an element is available. -/
theorem refines_wait {j : Job Unit α} {c' : Chain α} {flags' : Array Bool} {r : Option (Reply Unit α)}
    (hj : (Job.start () s (op.call s.chain)).1 = .more j) (hl : j.Lands s ⟨c', flags', s.now⟩ r)
    (hc : s.chain.Popped c') (reply : α → Reply Unit α) (hne : s.chain.toList ≠ [])
    (hr : ∀ x l, s.chain.live = x :: l → r = some (reply x.2))
    (ho : ∀ a l, s.chain.toList = a :: l → op.onList s.chain.toList = (l, (reply a).seen)) : op.Refines s := by
  cases hlive : s.chain.live with
  | nil => exact absurd (by rw [h.toList_eq, hlive]; rfl) hne
  | cons x l =>
    have hlist : s.chain.toList = x.2 :: l.map (·.2) := by rw [h.toList_eq, hlive]; rfl
    rw [hr x l hlive] at hl
    refine ⟨_, _, Shared.perform_of_lands hj hl, ?_, by rw [ho _ _ hlist]⟩
    rw [ho _ _ hlist]
    show c'.toList = _
    rw [hc.toList h, hlist]
    rfl

end Op

/-- One operation with nobody else acting is the operation on the list. -/
theorem perform_onList {s : Shared α} (h : s.chain.Quiet) (op : Op α) (hw : op.wants = true → s.chain.toList ≠ []) :
    op.Refines s := by
  cases op with
  | add a => exact Op.refines_push h rfl rfl
  | offer a => exact Op.refines_push h rfl rfl
  | offerTimeout a timeout => exact Op.refines_push h rfl rfl
  | put a => exact Op.refines_push h rfl rfl
  | addAll as =>
    cases as with
    | nil => exact Op.refines_done rfl (by simp [Op.onList, Reply.seen])
    | cons a as => exact Op.refines_push h rfl rfl
  | poll => exact Op.refines_pop h rfl rfl
  | removeFirst => exact Op.refines_pop h rfl (by rw [emptyOr_eq]; rfl)
  | take flag =>
    obtain ⟨c', flags', r, hc, hl, hr⟩ := Job.take_lands (σ := Unit) s.flags s.now h flag
    exact Op.refines_wait h rfl hl hc (fun a => .result (.ok a)) (hw rfl) hr fun a l ha => by rw [ha]; rfl
  | pollTimeout timeout flag =>
    obtain ⟨c', flags', r, hc, hl, hr⟩ := Job.timed_lands (σ := Unit) s.flags s.now h flag
      (TimedPoll.deadline? Job.latest s.now timeout.total)
    exact Op.refines_wait h rfl hl hc (fun a => .timed (.ok (some a))) (hw rfl) hr fun a l ha => by rw [ha]; rfl
  | peek =>
    obtain ⟨k, hk⟩ := whole_copy h ()
    exact Op.refines_walk h rfl hk rfl
  | element =>
    obtain ⟨k, hk⟩ := whole_copy h ()
    exact Op.refines_walk h rfl hk (by simp only [Job.copyReply, emptyOr_eq]; rfl)
  | iter n =>
    cases n with
    | zero => exact Op.refines_done rfl rfl
    | succ n =>
      obtain ⟨k, hl⟩ := Job.next_lands s.flags s.now h s.chain.head () n
      apply Op.refines_look rfl hl
      rw [← live, ← h.toList_eq, asked_eq]
      rfl
  | toList =>
    refine Op.refines_look rfl (Job.collect_lands s.flags s.now h ()) ?_
    rw [← h.toList_eq]
    rfl
  | contains a =>
    obtain ⟨k, hk⟩ := whole_find h (· == a) ()
    exact Op.refines_walk h rfl hk rfl
  | containsAll as =>
    cases as with
    | nil => exact Op.refines_done rfl rfl
    | cons a as => exact Op.refines_look rfl (Job.contains_lands s.flags s.now h a () as) rfl
  | removeItem a =>
    obtain ⟨js, k, hk, hl⟩ := whole_removeOne h (· == a) ()
    apply Op.refines_walk h rfl hk
    rw [hl]
    cases hb : s.chain.toList.any (· == a) <;> simp [Op.onList, Job.anyRemoved, Job.removedOf, Reply.seen, hb]
  | removeAll as =>
    apply Op.refines_remove h (Job.among as) rfl
    intro k n hn
    simp only [Op.onList, Job.anyRemoved, Job.removedOf, Reply.seen, hn]
    rfl
  | retainAll as =>
    apply Op.refines_remove h (fun x => !Job.among as x) rfl
    intro k n hn
    simp only [Op.onList, Job.anyRemoved, Job.removedOf, Reply.seen, hn, Bool.not_not]
    rfl
  | retain keep =>
    apply Op.refines_remove h (fun x => !keep x) rfl
    intro k n hn
    simp only [Op.onList, Job.removedOf, Reply.seen, Except.map, hn, Bool.not_not]
  | clear =>
    apply Op.refines_remove h (fun _ => true) rfl
    intro k n _
    simp [Op.onList, Job.removedOf, Reply.seen]
  | len => exact Op.refines_done rfl (by rw [h.length_eq, h.toList_eq]; simp [Op.onList, Reply.seen])
  | isEmpty => exact Op.refines_done rfl (by rw [h.isEmpty_eq, h.toList_eq]; simp [Op.onList, Reply.seen])
  | drainTo sink => exact Op.refines_done rfl rfl
  | drainToMax sink max => exact Op.refines_done rfl rfl

/-! ## Sequences of operations -/

/-- The flags of the interrupts and the clock where an operation begins. -/
structure Moment where
  flags : Array Bool
  now : Nat

namespace Op

/-- What an operation leaves, and answers its caller. -/
def answer (s : Shared α) (m : Moment) (op : Op α) : Shared α × Option (Reply Unit α) :=
  match Shared.perform () ⟨s.chain, m.flags, m.now⟩ (op.call s.chain) with
  | (s, r) => (s, r.map Reply.seen)

def answers (s : Shared α) : List (Moment × Op α) → Shared α × List (Option (Reply Unit α))
  | [] => (s, [])
  | (m, op) :: ops => ((answers (op.answer s m).1 ops).1, (op.answer s m).2 :: (answers (op.answer s m).1 ops).2)

def onLists (l : List α) : List (Op α) → List α × List (Reply Unit α)
  | [] => (l, [])
  | op :: ops => ((onLists (op.onList l).1 ops).1, (op.onList l).2 :: (onLists (op.onList l).1 ops).2)

/-- An element is there whenever one is waited for. -/
def Served (l : List α) : List (Op α) → Prop
  | [] => True
  | op :: ops => (op.wants = true → l ≠ []) ∧ Served (op.onList l).1 ops

theorem answer_onList {s : Shared α} (h : s.chain.Quiet) (m : Moment) (op : Op α)
    (hw : op.wants = true → s.chain.toList ≠ []) : (op.answer s m).1.chain.Quiet ∧
      (op.answer s m).1.chain.toList = (op.onList s.chain.toList).1 ∧
        (op.answer s m).2 = some (op.onList s.chain.toList).2 := by
  have hq := Shared.perform_quiet (s := ⟨s.chain, m.flags, m.now⟩) () h (op.call s.chain)
  obtain ⟨s', r, hp, hl, hr⟩ := perform_onList (s := ⟨s.chain, m.flags, m.now⟩) h op hw
  have ha : op.answer s m = (s', some r.seen) := by
    rw [answer, hp]
    rfl
  rw [hp] at hq
  rw [ha]
  exact ⟨hq.1, hl, congrArg some hr⟩

theorem answers_onLists {s : Shared α} (h : s.chain.Quiet) (ops : List (Moment × Op α))
    (hs : Served s.chain.toList (ops.map (·.2))) : (answers s ops).1.chain.Quiet ∧
      (answers s ops).1.chain.toList = (onLists s.chain.toList (ops.map (·.2))).1 ∧
        (answers s ops).2 = (onLists s.chain.toList (ops.map (·.2))).2.map some := by
  induction ops generalizing s with
  | nil => exact ⟨h, rfl, rfl⟩
  | cons x ops ih =>
    obtain ⟨m, op⟩ := x
    obtain ⟨hw, hs⟩ := hs
    obtain ⟨hq, hl, hr⟩ := answer_onList h m op hw
    have hrest := ih hq (by rw [hl]; exact hs)
    rw [hl] at hrest
    refine ⟨hrest.1, hrest.2.1, ?_⟩
    show _ :: _ = _ :: _
    rw [hr, hrest.2.2]

/-- Polls empty a list from its front. -/
theorem onLists_polls (l : List α) :
    (onLists l (List.replicate (l.length + 1) .poll)).2 = l.map (fun a => .element (some a)) ++ [.element none] := by
  induction l with
  | nil => rfl
  | cons a l ih => exact congrArg (_ :: ·) ih

theorem served_polls (l : List α) (n : Nat) : Served l (List.replicate n .poll) := by
  induction n generalizing l with
  | zero => trivial
  | succ n ih => exact ⟨fun h => (nomatch h), ih _⟩

end Op

/-- What the answers about one queue have to do with each other. -/
structure Agrees (s : Shared α) : Prop where
  /-- A poll gives the element that a peek gives. -/
  first : ∀ m, ∃ a, (Op.poll.answer s m).2 = some (.element a) ∧ (Op.peek.answer s m).2 = some (.element a)
  /-- The length is that of the list, and so many polls give its elements before one gives none. -/
  length : ∀ m, ∃ as, (Op.toList.answer s m).2 = some (.all as) ∧ (Op.len.answer s m).2 = some (.count as.length) ∧
    (Op.answers s (List.replicate (as.length + 1) (m, .poll))).2 =
      as.map (fun a => some (.element (some a))) ++ [some (.element none)]
  /-- The queue is empty just where its length is 0, and just where there is no first element. -/
  empty : ∀ m, ((Op.isEmpty.answer s m).2 = some (.yes true) ↔ (Op.len.answer s m).2 = some (.count 0)) ∧
    ((Op.isEmpty.answer s m).2 = some (.yes true) ↔ (Op.element.answer s m).2 = some (.result (.error .empty)))

theorem agrees_of_quiet {s : Shared α} (h : s.chain.Quiet) : Agrees s := by
  have look : ∀ m (op : Op α), op.wants = false → (op.answer s m).2 = some (op.onList s.chain.toList).2 :=
    fun m op hw => (Op.answer_onList h m op (by simp [hw])).2.2
  refine ⟨fun m => ⟨s.chain.toList.head?, look m .poll rfl, look m .peek rfl⟩,
    fun m => ⟨s.chain.toList, look m .toList rfl, look m .len rfl, ?_⟩, ?_⟩
  · have hpolls : (List.replicate (s.chain.toList.length + 1) (m, (.poll : Op α))).map (·.2) =
        List.replicate (s.chain.toList.length + 1) .poll := by simp
    have hs := Op.served_polls s.chain.toList (s.chain.toList.length + 1)
    rw [← hpolls] at hs
    rw [(Op.answers_onLists h _ hs).2.2, hpolls, Op.onLists_polls]
    simp
  · intro m
    rw [look m .isEmpty rfl, look m .len rfl, look m .element rfl]
    cases s.chain.toList <;> simp [Op.onList]

/-- A queue made of these elements. -/
def Shared.ofList (as : List α) : Shared α := (Shared.perform () .empty (.addAll as : Call Unit α)).1

theorem ofList_quiet (as : List α) : (Shared.ofList as).chain.Quiet ∧ (Shared.ofList as).chain.toList = as := by
  have hq := Shared.perform_quiet (s := (Shared.empty : Shared α)) () quiet_empty (.addAll as)
  obtain ⟨s', r, hp, hl, -⟩ :=
    perform_onList (s := (Shared.empty : Shared α)) quiet_empty (.addAll as) (by simp [Op.wants])
  have ha : Shared.ofList as = s' := congrArg Prod.fst hp
  refine ⟨hq.1, ?_⟩
  rw [ha, hl]
  rfl

/-- Every sequence of operations is answered as a list answers it, and leaves what it leaves;
    and wherever it ends, the queue's answers about itself agree. -/
theorem queue_refines_list (as : List α) (ops : List (Moment × Op α)) (hs : Op.Served as (ops.map (·.2))) :
    (Op.answers (.ofList as) ops).2 = (Op.onLists as (ops.map (·.2))).2.map some ∧
      (Op.answers (.ofList as) ops).1.chain.toList = (Op.onLists as (ops.map (·.2))).1 ∧
        Agrees (Op.answers (.ofList as) ops).1 := by
  obtain ⟨hq, hl⟩ := ofList_quiet as
  obtain ⟨hq', hlist, hreplies⟩ := Op.answers_onLists hq ops (by rw [hl]; exact hs)
  rw [hl] at hlist hreplies
  exact ⟨hreplies, hlist, agrees_of_quiet hq'⟩

/-- Waits that are served, after an element between two others has gone. -/
theorem queue_refines_list_served :
    let ops : List (Moment × Op Nat) :=
      [(⟨#[], 0⟩, .removeItem 2), (⟨#[true], 5⟩, .take 0), (⟨#[], 7⟩, .pollTimeout ⟨0, 0⟩ 0), (⟨#[], 8⟩, .isEmpty)]
    Op.Served [1, 2, 3] (ops.map (·.2)) ∧ (Op.answers (.ofList [1, 2, 3]) ops).2 =
      [some (.yes true), some (.result (.ok 1)), some (.timed (.ok (some 3))), some (.yes true)] := by
  intro ops
  have hs : Op.Served [1, 2, 3] (ops.map (·.2)) := by simp [ops, Op.Served, Op.onList, Op.wants]
  exact ⟨hs, (queue_refines_list [1, 2, 3] ops hs).1.trans rfl⟩

end BusyWait
