import BusyWait.Proofs.Queue.Ownership

/-
  BusyWait.Proofs.Queue.Unaided — a push or a pop that goes on while all others stand still.

  However threads have pushed, popped and walked, all but one may stop, each between any
  two of its accesses. The one that goes on does not wait for what they have left undone.

  A push finds the tail at the last node or at the one before (`Chain.Strung.near`). In the
  second case the push that linked the last node has not moved the tail yet; this one does
  it first, and its next attempt succeeds. A pop passes the nodes that are claimed, whether
  their elements are gone or those that claimed them have stopped before they took them. At
  the first that is unclaimed, and that nobody looks at, the word is free, so that the claim
  is through at once.

  - `push_unaided`, `pop_gets`, `pop_runs_out`: the accesses, for any chain that is `Strung`.
  - `Crew.solo_accesses`: a thread makes them if the next turns are all its own.
  - `calls_finish_unaided`: all this after every run.
-/

namespace BusyWait

/-! ## The accesses of an operation alone -/

section
variable {σ τ ρ : Type} {step : σ → τ → σ × Progress τ ρ} {s s' : σ} {t t' : τ} {ts us : List τ}
  {e : σ × Progress τ ρ}

/-- Alone the operation gets from `s` to `e` in the accesses `ts`, each told by what was left to do. -/
inductive Accesses (step : σ → τ → σ × Progress τ ρ) : σ → τ → List τ → σ × Progress τ ρ → Prop
  | here {s : σ} {t : τ} : Accesses step s t [] (s, .more t)
  | last {s s' : σ} {t : τ} {r : ρ} (hs : step s t = (s', .done r)) : Accesses step s t [t] (s', .done r)
  | next {s s' : σ} {t t' : τ} {ts : List τ} {e : σ × Progress τ ρ} (hs : step s t = (s', .more t'))
      (he : Accesses step s' t' ts e) : Accesses step s t (t :: ts) e

namespace Accesses

theorem trans (h : Accesses step s t ts (s', .more t')) (h' : Accesses step s' t' us e) :
    Accesses step s t (ts ++ us) e := by
  generalize he : (s', Progress.more t') = e' at h
  induction h with
  | here =>
    cases he
    exact h'
  | last => cases he
  | next hs _ ih => exact .next hs (ih he)

/-- What comes after the first access. -/
theorem tail {r : ρ} (h : Accesses step s t ts (s', .done r)) {s₁ : σ} {t₁ : τ} (hs : step s t = (s₁, .more t₁)) :
    Accesses step s₁ t₁ ts.tail (s', .done r) := by
  cases h with
  | last hs' =>
    rw [hs] at hs'
    cases hs'
  | next hs' he =>
    rw [hs] at hs'
    cases hs'
    exact he

end Accesses

end

variable {σ α : Type} {c : Chain α}

open Chain

/-! ## Putting an element at the end -/

namespace Push

/-- A new attempt. -/
def begins : Push α → Bool
  | .readTail _ => true
  | _ => false

def helps : Push α → Bool
  | .help _ _ _ => true
  | _ => false

end Push

namespace Chain

/-- With a new last node, and the tail there. -/
def appended (c : Chain α) (a : α) : Chain α := { c.link (c.nodes.size - 1) a with tail := c.nodes.size }

/-- It does not matter where the tail was. -/
theorem appended_swapTail (c : Chain α) (i j : Nat) (a : α) : (c.swapTail i j).appended a = c.appended a := by
  unfold swapTail
  split <;> rfl

theorem Strung.swapTail (h : c.Strung) {t : Nat} (hn : t + 1 < c.nodes.size) : (c.swapTail t (t + 1)).Strung := by
  by_cases ht : c.tail = t
  · subst ht
    have hsame : c.SameLinks (c.swapTail c.tail (c.tail + 1)) := sameLinks_of_nodes (nodes_swapTail ..)
    have hhead := h.head
    have hahead := h.ahead
    rw [Chain.swapTail, if_pos rfl] at hsame ⊢
    exact hsame.strung h (Nat.le_refl _) (Nat.le_succ _) ⟨hhead, hn⟩ (Nat.le_succ_of_le hahead)
  · rw [Chain.swapTail, if_neg ht]
    exact h

end Chain

/-- Behind the last node a push links its own. -/
theorem push_links (h : c.Strung) (hl : c.tail + 1 = c.nodes.size) (a : α) :
    Accesses Push.step c (.link a c.tail) [.link a c.tail, .swing c.tail c.nodes.size] (c.appended a, .done ()) := by
  have hnext : (c.node c.tail).next = none := by rw [h.next c.tail h.tail, if_neg (by omega)]
  have hlink : Push.step c (.link a c.tail) = (c.link c.tail a, .more (.swing c.tail c.nodes.size)) := by
    simp only [Push.step, hnext, if_pos]
  have hswing : Push.step (c.link c.tail a) (.swing c.tail c.nodes.size) = (c.appended a, .done ()) := by
    have htail : (c.link c.tail a).tail = c.tail := rfl
    rw [Push.step, swapTail, if_pos htail, appended, ← hl, Nat.add_sub_cancel]
  exact .next hlink (.last hswing)

/-- Where the tail is the last node a push needs one attempt. -/
theorem push_attempts (h : c.Strung) (hl : c.tail + 1 = c.nodes.size) (a : α) :
    Accesses Push.step c (.readTail a)
      [.readTail a, .readNext a c.tail, .link a c.tail, .swing c.tail c.nodes.size] (c.appended a, .done ()) := by
  have hnext : (c.node c.tail).next = none := by rw [h.next c.tail h.tail, if_neg (by omega)]
  have hread : Push.step c (.readNext a c.tail) = (c, .more (.link a c.tail)) := by
    simp only [Push.step, hnext]
  exact .next rfl (.next hread (push_links h hl a))

/-- A push makes one attempt, or two of which the first helps a tail that lags. -/
theorem push_unaided (h : c.Strung) (a : α) : ∃ ts, Accesses Push.step c (.readTail a) ts (c.appended a, .done ()) ∧
    ts.countP Push.helps = (if c.tail + 1 < c.nodes.size then 1 else 0) ∧
    ts.countP Push.begins = ts.countP Push.helps + 1 := by
  have htail := h.tail
  have hnear := h.near
  by_cases hl : c.tail + 1 < c.nodes.size
  · have hnext : (c.node c.tail).next = some (c.tail + 1) := by rw [h.next c.tail htail, if_pos hl]
    have hread : Push.step c (.readNext a c.tail) = (c, .more (.help a c.tail (c.tail + 1))) := by
      simp only [Push.step, hnext]
    have hlast : (c.swapTail c.tail (c.tail + 1)).tail + 1 = (c.swapTail c.tail (c.tail + 1)).nodes.size := by
      rw [nodes_swapTail, swapTail, if_pos rfl]
      show c.tail + 1 + 1 = c.nodes.size
      omega
    have hagain := push_attempts (h.swapTail hl) hlast a
    rw [appended_swapTail] at hagain
    refine ⟨_, .next rfl (.next hread (.next rfl hagain)), ?_, rfl⟩
    rw [if_pos hl]
    rfl
  · refine ⟨_, push_attempts h (by omega) a, ?_, rfl⟩
    rw [if_neg hl]
    rfl

/-- So it makes two at most. -/
theorem push_anew (h : c.Strung) (a : α) : ∃ ts, Accesses Push.step c (.readTail a) ts (c.appended a, .done ()) ∧
    ts.countP Push.begins ≤ 2 := by
  obtain ⟨ts, hts, hhelps, hbegins⟩ := push_unaided h a
  refine ⟨ts, hts, ?_⟩
  split at hhelps <;> omega

/-- Also after a help, be it of a tail that was moved in the meantime. -/
theorem push_helps (h : c.Strung) (a : α) {t : Nat} (hn : t + 1 < c.nodes.size) : ∃ ts,
    Accesses Push.step c (.help a t (t + 1)) ts (c.appended a, .done ()) ∧ ts.countP Push.begins ≤ 2 := by
  obtain ⟨ts, hts, hbegins⟩ := push_anew (h.swapTail hn) a
  rw [appended_swapTail] at hts
  exact ⟨_, .next rfl hts, hbegins⟩

namespace Push

/-- What a push that has begun is to make of the chain. -/
def leaves (c : Chain α) : Push α → Chain α
  | .readTail a | .readNext a _ | .help a _ _ | .link a _ => c.appended a
  | .swing t n => c.swapTail t n

end Push

/-- A push that has begun makes two more attempts at most. -/
theorem push_resumes (h : c.Strung) {p : Push α} (hp : (Act.push p : Act σ α).Placed c) : ∃ ts,
    Accesses Push.step c p ts (p.leaves c, .done ()) ∧ ts.countP Push.begins ≤ 2 := by
  have htail := h.tail
  cases p with
  | readTail a => exact push_anew h a
  | readNext a t =>
    have ht : t ≤ c.tail := hp
    have hnext := h.next t (by omega)
    by_cases hlt : t + 1 < c.nodes.size
    · rw [if_pos hlt] at hnext
      have hread : Push.step c (.readNext a t) = (c, .more (.help a t (t + 1))) := by
        simp only [Push.step, hnext]
      obtain ⟨ts, hts, hbegins⟩ := push_helps h a hlt
      exact ⟨_, .next hread hts, hbegins⟩
    · rw [if_neg hlt] at hnext
      obtain rfl : t = c.tail := by omega
      have hread : Push.step c (.readNext a c.tail) = (c, .more (.link a c.tail)) := by
        simp only [Push.step, hnext]
      exact ⟨_, .next hread (push_links h (by omega) a), Nat.zero_le 2⟩
  | help a t n =>
    obtain ⟨rfl, hn, -⟩ := hp
    exact push_helps h a hn
  | link a t =>
    have ht : t ≤ c.tail := hp
    have hnext := h.next t (by omega)
    by_cases hlt : t + 1 < c.nodes.size
    · rw [if_pos hlt] at hnext
      have hlink : Push.step c (.link a t) = (c, .more (.readTail a)) := by
        simp only [Push.step, hnext]
        rfl
      obtain ⟨ts, hts, hbegins⟩ := push_anew h a
      exact ⟨_, .next hlink hts, hbegins⟩
    · obtain rfl : t = c.tail := by omega
      exact ⟨_, push_links h (by omega) a, Nat.zero_le 2⟩
  | swing t n => exact ⟨_, .last rfl, Nat.zero_le 2⟩

/-! ## Taking the first element out -/

namespace Chain

theorem SameItems.trans {c' c'' : Chain α} (h : c.SameItems c') (h' : c'.SameItems c'') : c.SameItems c'' :=
  ⟨h'.size.trans h.size, h'.head.trans h.head, fun i => (h'.word i).trans (h.word i),
    fun i => (h'.slot i).trans (h.slot i)⟩

/-- With the head at another node. -/
def headed (c : Chain α) (n : Nat) : Chain α := { c with head := n }

/-- With the head one node further, and the tail with it if it was still there. -/
def stepped (c : Chain α) : Chain α :=
  { c with head := c.head + 1, tail := if c.tail = c.head then c.head + 1 else c.tail }

/-- And the node retired that the head has left. -/
def forward (c : Chain α) : Chain α := c.stepped.retire c.head

theorem sameItems_forward (c : Chain α) : (c.headed (c.head + 1)).SameItems c.forward := by
  have hstepped : (c.headed (c.head + 1)).SameItems c.stepped := sameItems_of_nodes rfl rfl
  exact hstepped.trans (sameItems_retire c.stepped c.head)

theorem Strung.linked_eq (h : c.Strung) : c.linked = List.range' (c.head + 1) (c.nodes.size - (c.head + 1)) :=
  h.next.follow h.head (by omega)

theorem Strung.forward (h : c.Strung) (hn : c.head + 1 < c.nodes.size) : c.forward.Strung := by
  have hnear := h.near
  have htail := h.tail
  have hsame : c.SameLinks c.stepped := sameLinks_of_nodes rfl
  have hhead : c.stepped.head = c.head + 1 := rfl
  -- a head that has overtaken the tail is at the last node
  have hmoved : c.tail ≤ c.stepped.tail ∧ c.head < c.stepped.tail ∧ c.stepped.tail < c.nodes.size := by
    by_cases ht : c.tail = c.head
    · simp only [stepped, if_pos ht]
      omega
    · simp only [stepped, if_neg ht]
      omega
  apply Strung.retire
  · exact hsame.strung h (by omega) (by omega) (by omega) (by omega)
  · omega
  · omega

/-- The nodes after the head are one less. -/
theorem Strung.linked_cons (h : c.Strung) {i : Nat} {l : List Nat} (hl : c.linked = i :: l) :
    i = c.head + 1 ∧ c.head + 1 < c.nodes.size ∧ c.forward.linked = l := by
  have hn : c.head + 1 < c.nodes.size := by
    by_contra hn
    rw [h.linked_eq, Nat.sub_eq_zero_of_le (by omega)] at hl
    cases hl
  have hsame := sameItems_forward c
  have hhead : c.forward.head = c.head + 1 := hsame.head
  have hsize : c.forward.nodes.size = c.nodes.size := hsame.size
  rw [h.linked_eq, show c.nodes.size - (c.head + 1) = c.nodes.size - (c.head + 2) + 1 by omega,
    List.range'_succ, List.cons.injEq] at hl
  refine ⟨hl.1.symm, hn, ?_⟩
  rw [(h.forward hn).linked_eq, hhead, hsize]
  exact hl.2

/-- The nodes after the head, as far as node `m`. -/
theorem Strung.linked_until (h : c.Strung) {before after : List Nat} {m : Nat} (hl : c.linked = before ++ m :: after) :
    before ++ [m] = List.range' (c.head + 1) (m - c.head) := by
  have hsplit : List.range' (c.head + 1) (c.nodes.size - (c.head + 1)) = (before ++ [m]) ++ after := by
    rw [← h.linked_eq, hl, List.append_assoc]
    rfl
  obtain ⟨j, -, hfirst, -⟩ := List.range'_eq_append_iff.mp hsplit
  have hj : 0 < j := by
    rw [← List.length_range' (s := c.head + 1) (n := j), ← hfirst]
    simp
  have hlast := congrArg List.getLast? hfirst
  rw [List.getLast?_concat, List.getLast?_range', if_neg (Nat.ne_of_gt hj), Option.some.injEq] at hlast
  rw [hfirst, show m - c.head = j by omega]

end Chain

/-- A pop moves the head on, and is then about to claim. -/
theorem pop_forwards (h : c.Strung) (hn : c.head + 1 < c.nodes.size) : ∃ ts, ts.length ≤ 6 ∧
    Accesses Pop.step c .readHead ts (c.forward, .more (.claim (c.head + 1))) := by
  have hnext : (c.node c.head).next = some (c.head + 1) := by rw [h.next _ h.head, if_pos hn]
  have hread : Pop.step c (.readNext c.head) = (c, .more (.moveHead c.head (c.head + 1))) := by
    simp only [Pop.step, hnext]
  have hmove : Pop.step c (.moveHead c.head (c.head + 1)) =
      (c.headed (c.head + 1), .more (.readTail c.head (c.head + 1))) := by
    simp only [Pop.step, swapHead, if_pos, headed]
  by_cases ht : c.tail = c.head
  · have hbehind : (c.headed (c.head + 1)).tail = c.head := ht
    have htail : Pop.step (c.headed (c.head + 1)) (.readTail c.head (c.head + 1)) =
        (c.headed (c.head + 1), .more (.fixTail c.head (c.head + 1))) := by
      rw [Pop.step, if_pos hbehind]
    have hfix : Pop.step (c.headed (c.head + 1)) (.fixTail c.head (c.head + 1)) =
        (c.stepped, .more (.retire c.head (c.head + 1))) := by
      rw [Pop.step, swapTail, if_pos hbehind, stepped, if_pos ht]
      rfl
    refine ⟨_, ?_, .next rfl (.next hread (.next hmove (.next htail (.next hfix (.next rfl .here)))))⟩
    apply Nat.le_refl
  · have hbeyond : ¬(c.headed (c.head + 1)).tail = c.head := ht
    have htail : Pop.step (c.headed (c.head + 1)) (.readTail c.head (c.head + 1)) =
        (c.stepped, .more (.retire c.head (c.head + 1))) := by
      rw [Pop.step, if_neg hbeyond, stepped, if_neg ht]
      rfl
    refine ⟨_, ?_, .next rfl (.next hread (.next hmove (.next htail (.next rfl .here))))⟩
    apply Nat.le_succ

/-- A node that is claimed is passed. -/
theorem pop_turns {n : Nat} (hc : (c.node n).claimed = true) : Pop.step c (.claim n) = (c, .more .readHead) := by
  have hp : (c.node n).word.writerPending = true := hc
  have hself := setWord_self c (Word.raise_of_pending hp).symm
  simp only [Pop.step, Word.claim, hp, hself]
  rfl

/-- A pop passes the claimed nodes that are first. -/
theorem pop_passes (h : c.Strung) {before after : List Nat} (hl : c.linked = before ++ after)
    (hb : ∀ i ∈ before, (c.node i).claimed = true) : ∃ d ts, d.Strung ∧ d.linked = after ∧
      (c.headed (c.head + before.length)).SameItems d ∧ ts.length ≤ 7 * before.length ∧
      Accesses Pop.step c .readHead ts (d, .more .readHead) := by
  induction before generalizing c with
  | nil => exact ⟨c, [], h, hl, .refl c, Nat.le_refl 0, .here⟩
  | cons i before ih =>
    obtain ⟨rfl, hn, hrest⟩ := h.linked_cons hl
    have hsame := sameItems_forward c
    have hclaimed : ∀ j, (c.forward.node j).claimed = (c.node j).claimed := by
      intro j
      rw [Node.claimed, hsame.word]
      rfl
    obtain ⟨us, hus, hforward⟩ := pop_forwards h hn
    have hturns := pop_turns ((hclaimed _).trans (hb _ (List.mem_cons_self ..)))
    obtain ⟨d, ts, hd, hlinked, hitems, hts, hpasses⟩ := ih (h.forward hn) hrest
      (fun j hj => (hclaimed j).trans (hb j (List.mem_cons_of_mem _ hj)))
    refine ⟨d, us ++ .claim (c.head + 1) :: ts, hd, hlinked, ?_, ?_, hforward.trans (.next hturns hpasses)⟩
    · refine ⟨hitems.size.trans hsame.size, ?_, ?_, ?_⟩
      · rw [hitems.head, headed, headed, hsame.head, headed, List.length_cons]
        simp only
        omega
      · intro j
        exact (hitems.word j).trans (hsame.word j)
      · intro j
        exact (hitems.slot j).trans (hsame.slot j)
    · rw [List.length_append, List.length_cons, List.length_cons]
      omega

/-- At the first element that is unclaimed, and that nobody looks at, it ends. -/
theorem pop_gets (h : c.Strung) {before after : List Nat} {m : Nat} {a : α} (hl : c.linked = before ++ m :: after)
    (hb : ∀ i ∈ before, (c.node i).claimed = true) (hw : (c.node m).word = .free)
    (hs : (c.node m).slot = .holds a) : ∃ d ts, (c.headed m).SameItems d ∧ ts.length ≤ 7 * before.length + 9 ∧
      Accesses Pop.step c .readHead ts (d.scrap m .moved, .done (.ok (some a))) := by
  obtain ⟨b, us, hstrung, hlinked, hitems, hus, hpasses⟩ := pop_passes h hl hb
  obtain ⟨rfl, hn, -⟩ := hstrung.linked_cons hlinked
  obtain ⟨vs, hvs, hforward⟩ := pop_forwards hstrung hn
  have hsame := sameItems_forward b
  have hlt : b.head + 1 < b.forward.nodes.size := by
    rw [hsame.size]
    exact hn
  have hfree : (b.forward.node (b.head + 1)).word = .free := ((hsame.word _).trans (hitems.word _)).trans hw
  have hholds : (b.forward.node (b.head + 1)).slot = .holds a := ((hsame.slot _).trans (hitems.slot _)).trans hs
  have hclaim : Pop.step b.forward (.claim (b.head + 1)) =
      (b.forward.setWord (b.head + 1) .owned, .more (.drain (b.head + 1) ⟨0⟩)) := by
    simp only [Pop.step, hfree, show Word.free.claim = (Word.owned, true) by decide]
    rfl
  have hdrain : Pop.step (b.forward.setWord (b.head + 1) .owned) (.drain (b.head + 1) ⟨0⟩) =
      (b.forward.setWord (b.head + 1) .owned, .more (.take (b.head + 1))) :=
    Pop.step_drain_owned (by rw [word_setWord _ _ hlt, if_pos rfl]) _
  have htake : Pop.step (b.forward.setWord (b.head + 1) .owned) (.take (b.head + 1)) =
      (b.forward.scrap (b.head + 1) .moved, .done (.ok (some a))) := by
    rw [← slot_setWord _ (b.head + 1) _ .owned] at hholds
    simp only [Pop.step, hholds]
    rfl
  have hrun : Accesses Pop.step c .readHead
      (us ++ (vs ++ [.claim (b.head + 1), .drain (b.head + 1) ⟨0⟩, .take (b.head + 1)]))
      (b.forward.scrap (b.head + 1) .moved, .done (.ok (some a))) := by
    apply hpasses.trans
    apply hforward.trans
    exact .next hclaim (.next hdrain (.last htake))
  refine ⟨b.forward, _, ?_, ?_, hrun⟩
  · exact ⟨hsame.size.trans hitems.size, hsame.head, fun j => (hsame.word j).trans (hitems.word j),
      fun j => (hsame.slot j).trans (hitems.slot j)⟩
  · simp only [List.length_append, List.length_cons, List.length_nil]
    omega

/-- Where all are claimed it comes to the last node. -/
theorem pop_runs_out (h : c.Strung) (hb : ∀ i ∈ c.linked, (c.node i).claimed = true) : ∃ d ts,
    (c.headed (c.nodes.size - 1)).SameItems d ∧ ts.length ≤ 7 * c.linked.length + 2 ∧
      Accesses Pop.step c .readHead ts (d, .done (.ok none)) := by
  obtain ⟨d, us, hstrung, hlinked, hitems, hus, hpasses⟩ := pop_passes h (List.append_nil _).symm hb
  have hlength : c.linked.length = c.nodes.size - (c.head + 1) := by rw [h.linked_eq, List.length_range']
  have hlt := h.head
  have hlast : c.head + c.linked.length = c.nodes.size - 1 := by omega
  have hnext : (d.node d.head).next = none := by
    have hhead : d.head = c.head + c.linked.length := hitems.head
    have hsize : d.nodes.size = c.nodes.size := hitems.size
    rw [hstrung.next _ hstrung.head, if_neg (by omega)]
  have hread : Pop.step d (.readNext d.head) = (d, .done (.ok none)) := by
    simp only [Pop.step, hnext]
  have hrun : Accesses Pop.step c .readHead (us ++ [.readHead, .readNext d.head]) (d, .done (.ok none)) := by
    apply hpasses.trans
    exact .next rfl (.last hread)
  refine ⟨d, _, hlast ▸ hitems, ?_, hrun⟩
  simp only [List.length_append, List.length_cons, List.length_nil]
  omega

namespace Pop

/-- It has no node to try for, and looks for the next. -/
def seeks : Pop → Bool
  | .readHead | .readNext _ | .moveHead _ _ => true
  | _ => false

end Pop

/-- A pop that still looks for its node gets what one would get that begins. -/
theorem pop_resumes {p : Pop} (h : c.Strung) (hp : (Act.pop p : Act σ α).Placed c) (hs : p.seeks = true)
    {ts : List Pop} {d : Chain α} {r : Except Fault (Option α)} (hr : Accesses Pop.step c .readHead ts (d, .done r)) :
    ∃ us, us.length ≤ ts.length + 2 ∧ Accesses Pop.step c p us (d, .done r) := by
  have hhead := h.head
  cases p with
  | readHead => exact ⟨ts, Nat.le_add_right .., hr⟩
  | readNext i =>
    have hi : i ≤ c.head := hp
    rcases Nat.lt_or_eq_of_le hi with hlt | rfl
    · have hnext := h.next i (by omega)
      rw [if_pos (by omega)] at hnext
      have hread : Pop.step c (.readNext i) = (c, .more (.moveHead i (i + 1))) := by
        simp only [Pop.step, hnext]
      have hmove : Pop.step c (.moveHead i (i + 1)) = (c, .more .readHead) := by
        rw [Pop.step, if_neg (by omega)]
      exact ⟨_, by simp, .next hread (.next hmove hr)⟩
    · exact ⟨ts.tail, by rw [List.length_tail]; omega, hr.tail rfl⟩
  | moveHead i n =>
    obtain ⟨rfl, hn⟩ := hp
    by_cases hi : c.head = i
    · subst hi
      have hnext : (c.node c.head).next = some (c.head + 1) := by rw [h.next _ hhead, if_pos hn]
      have hread : Pop.step c (.readNext c.head) = (c, .more (.moveHead c.head (c.head + 1))) := by
        simp only [Pop.step, hnext]
      exact ⟨ts.tail.tail, by simp only [List.length_tail]; omega, (hr.tail rfl).tail hread⟩
    · have hmove : Pop.step c (.moveHead i (i + 1)) = (c, .more .readHead) := by
        rw [Pop.step, if_neg hi]
      exact ⟨_, by simp, .next hmove hr⟩
  | readTail i n => cases hs
  | fixTail i n => cases hs
  | retire i n => cases hs
  | claim n => cases hs
  | drain n d => cases hs
  | lost n => cases hs
  | take n => cases hs

/-! ## The turns of one thread -/

namespace Stand

/-- An element that is unclaimed, and that nobody looks at: the word is free. -/
theorem Kept.free {s : Stand α} (h : s.Kept) (hp : s.word.writerPending = false) (hl : s.looking = 0) :
    s.word = .free ∧ ∃ a, s.item = some a ∧ s.slot = .holds a := by
  have hcounts := h.counts
  rw [hp, hl] at hcounts
  have hnone : s.draining + s.holding + s.returns + s.drops = 0 := by
    by_contra hpos
    have hpending := h.pending_of_draining (Nat.pos_of_ne_zero hpos)
    rw [hp] at hpending
    cases hpending
  exact ⟨hcounts.eq_free, h.holds (h.item_of_free hp) (by omega) (by omega)⟩

end Stand

namespace Crew

/-- The next `n` turns are all thread `k`'s. -/
def solo (c : Crew σ α) (k n : Nat) : Crew σ α := c.run (List.replicate n (.turn k))

section
variable {c : Crew σ α} {k : Nat}

theorem solo_succ {v : Act σ α} (hk : c.threads[k]? = some (some v)) (n : Nat) :
    c.solo k (n + 1) = (c.turn k v).solo k n := by
  rw [solo, List.replicate_succ, run_cons, step, hk]
  rfl

/-- An operation makes its accesses in the thread's turns, and other threads' calls stay where they are. -/
theorem solo_accesses {τ ρ : Type} {step : Chain α → τ → Chain α × Progress τ ρ} {call : τ → Act σ α}
    (hcall : ∀ d t, (call t).step d = ((step d t).1, Act.onward call (step d t).2)) {t : τ} {ts : List τ}
    {d : Chain α} {p : Progress τ ρ} (h : Accesses step c.chain t ts (d, p))
    (hk : c.threads[k]? = some (some (call t))) :
    (c.solo k ts.length).chain = d ∧ (c.solo k ts.length).threads = c.threads.set k (Act.onward call p) := by
  generalize hc : c.chain = s at h
  generalize he : (d, p) = e at h
  induction h generalizing c with
  | here =>
    cases he
    exact ⟨hc, (Traffic.set_of_getElem? hk).symm⟩
  | last hs =>
    cases he
    rw [List.length_singleton, solo_succ hk, turn, hcall, hc, hs]
    exact ⟨rfl, rfl⟩
  | @next _ s' t t' ts _ hs _ ih =>
    have hturn : (call t).step c.chain = (s', some (call t')) := by
      rw [hcall, hc, hs]
      rfl
    rw [List.length_cons, solo_succ hk]
    have hk' : (c.turn k (call t)).threads[k]? = some (some (call t')) := by
      rw [turn, hturn]
      exact List.getElem?_set_self (List.getElem?_eq_some_iff.mp hk).1
    obtain ⟨hchain, hthreads⟩ := ih hk' (by rw [turn, hturn]) he
    refine ⟨hchain, hthreads.trans ?_⟩
    rw [turn, List.set_set]

theorem log_solo (c : Crew σ α) (k n : Nat) : ∃ l, (c.solo k n).log = c.log ++ l ∧ ∀ x ∈ l, x.1 = k := by
  induction n generalizing c with
  | zero => exact ⟨[], (List.append_nil _).symm, List.forall_mem_nil _⟩
  | succ n ih =>
    obtain ⟨l, hl, hown⟩ := ih (c.step (.turn k))
    have hturn : ∃ l', (c.step (.turn k)).log = c.log ++ l' ∧ ∀ x ∈ l', x.1 = k := by
      simp only [step]
      split
      · refine ⟨_, rfl, ?_⟩
        intro x hx
        simp only [Option.mem_toList, Option.map_eq_some_iff] at hx
        obtain ⟨_, -, rfl⟩ := hx
        rfl
      · exact ⟨[], (List.append_nil _).symm, List.forall_mem_nil _⟩
    obtain ⟨l', hl', hown'⟩ := hturn
    refine ⟨l' ++ l, ?_, ?_⟩
    · rw [solo, List.replicate_succ, run_cons, ← solo, hl, hl', List.append_assoc]
    · intro x hx
      rcases List.mem_append.mp hx with hx | hx
      · exact hown' x hx
      · exact hown x hx

/-- The moves of the head in its turns are the thread's own. -/
theorem Strung.passes_solo (h : c.Strung) (k n : Nat) : (c.solo k n).passes = c.passes ++
    (List.range' (c.chain.head + 1) ((c.solo k n).chain.head - c.chain.head)).map (k, ·) := by
  obtain ⟨l, hl, hown⟩ := log_solo c k n
  have hsolo : (c.solo k n).Strung := strung_run h _
  have hle : c.chain.head ≤ (c.solo k n).chain.head := (h.later _).1
  obtain ⟨moves, hmoves, hpasses⟩ : ∃ moves : List (Nat × Nat), (∀ x ∈ moves, x.1 = k) ∧
      (c.solo k n).passes = c.passes ++ moves := by
    refine ⟨l.filterMap fun x => (Deed.pass? x.2).map (x.1, ·), ?_, ?_⟩
    · intro x hx
      obtain ⟨y, hy, hxy⟩ := List.mem_filterMap.mp hx
      obtain ⟨_, -, rfl⟩ := Option.map_eq_some_iff.mp hxy
      exact hown y hy
    · rw [Crew.passes, logged, hl, List.filterMap_append]
      rfl
  have hnodes : moves.map (·.2) = List.range' (c.chain.head + 1) ((c.solo k n).chain.head - c.chain.head) := by
    have hall := hsolo.passes
    obtain ⟨j, hj⟩ := Nat.exists_eq_add_of_le hle
    rw [hpasses, List.map_append, h.passes, hj, ← List.range'_append_1, Nat.add_comm 1] at hall
    rw [hj, Nat.add_sub_cancel_left]
    exact List.append_cancel_left hall
  rw [hpasses, ← hnodes, List.map_map]
  apply congrArg
  apply (List.map_id moves).symm.trans
  apply List.map_congr_left
  intro x hx
  exact Prod.ext (hmoves x hx) rfl

end

/-- In thread `k`'s own turns its call, which is at `t`, makes the accesses `ts`, leaves the chain as `d` and
    ends with `r`; all others' calls stay where they are. -/
structure Finishes {τ ρ : Type} (c : Crew σ α) (k : Nat) (call : τ → Act σ α)
    (step : Chain α → τ → Chain α × Progress τ ρ) (t : τ) (ts : List τ) (d : Chain α) (r : ρ) : Prop where
  accesses : Accesses step c.chain t ts (d, .done r)
  chain : (c.solo k ts.length).chain = d
  threads : (c.solo k ts.length).threads = c.threads.set k none

theorem finishes {τ ρ : Type} {c : Crew σ α} {k : Nat} {step : Chain α → τ → Chain α × Progress τ ρ}
    {call : τ → Act σ α} (hcall : ∀ d t, (call t).step d = ((step d t).1, Act.onward call (step d t).2)) {t : τ}
    {ts : List τ} {d : Chain α} {r : ρ} (h : Accesses step c.chain t ts (d, .done r))
    (hk : c.threads[k]? = some (some (call t))) : c.Finishes k call step t ts d r := by
  obtain ⟨hchain, hthreads⟩ := solo_accesses hcall h hk
  exact ⟨h, hchain, hthreads⟩

/-- What a call comes to that is left alone, wherever all others are. One that begins is at `readTail`
    or at `readHead`. -/
structure Unaided (c : Crew σ α) : Prop where
  /-- A push makes one attempt, or two of which the first helps a tail that lags. -/
  push : ∀ k a, c.threads[k]? = some (some (.push (.readTail a))) → ∃ ts,
    c.Finishes k .push Push.step (.readTail a) ts (c.chain.appended a) () ∧
      ts.countP Push.helps = (if c.chain.tail + 1 < c.chain.nodes.size then 1 else 0) ∧
      ts.countP Push.begins = ts.countP Push.helps + 1
  /-- One that has begun makes two more at most. -/
  pushing : ∀ k p, c.threads[k]? = some (some (.push p)) → ∃ ts,
    c.Finishes k .push Push.step p ts (p.leaves c.chain) () ∧ ts.countP Push.begins ≤ 2
  /-- A pop moves the head over the claimed nodes that are first and over the one after them. If
      nobody looks at its element, the pop takes it. -/
  pop : ∀ k p before m after, c.threads[k]? = some (some (.pop p)) → p.seeks = true →
    c.chain.linked = before ++ m :: after → (∀ i ∈ before, (c.chain.node i).claimed = true) →
    (c.chain.node m).claimed = false → c.count .looking m = 0 → ∃ a d ts, c.item m = some a ∧
      (c.chain.headed m).SameItems d ∧ c.Finishes k .pop Pop.step p ts (d.scrap m .moved) (.ok (some a)) ∧
      ts.length ≤ 7 * before.length + 11 ∧ (c.solo k ts.length).passes = c.passes ++ (before ++ [m]).map (k, ·)
  /-- Where all are claimed it moves the head to the last node and gives nothing. -/
  vain : ∀ k p, c.threads[k]? = some (some (.pop p)) → p.seeks = true →
    (∀ i ∈ c.chain.linked, (c.chain.node i).claimed = true) → ∃ d ts,
      (c.chain.headed (c.chain.nodes.size - 1)).SameItems d ∧ c.Finishes k .pop Pop.step p ts d (.ok none) ∧
      ts.length ≤ 7 * c.chain.linked.length + 4 ∧ (c.solo k ts.length).passes = c.passes ++ c.chain.linked.map (k, ·)

theorem Custody.unaided {c : Crew σ α} (h : c.Custody) : c.Unaided := by
  have hc := h.strung.chain
  refine ⟨?_, ?_, ?_, ?_⟩
  · intro k a hk
    obtain ⟨ts, hts, hhelps, hbegins⟩ := push_unaided hc a
    exact ⟨ts, finishes (fun _ _ => rfl) hts hk, hhelps, hbegins⟩
  · intro k p hk
    obtain ⟨ts, hts, hbegins⟩ := push_resumes hc (h.strung.placed _ (List.mem_of_getElem? hk))
    exact ⟨ts, finishes (fun _ _ => rfl) hts hk, hbegins⟩
  · intro k p before m after hk hp hl hb hm hlook
    obtain ⟨hw, a, hitem, hs⟩ := (h.kept m).free hm hlook
    obtain ⟨d, us, hd, hus, hgets⟩ := pop_gets hc hl hb hw hs
    obtain ⟨ts, hts, hpop⟩ := pop_resumes hc (h.strung.placed _ (List.mem_of_getElem? hk)) hp hgets
    have hfinishes := finishes (fun _ _ => rfl) hpop hk
    refine ⟨a, d, ts, hitem, hd, hfinishes, by omega, ?_⟩
    have hhead : (c.solo k ts.length).chain.head = m := by
      rw [hfinishes.chain]
      exact hd.head
    rw [h.strung.passes_solo, hhead, hc.linked_until hl]
  · intro k p hk hp hb
    obtain ⟨d, us, hd, hus, hgets⟩ := pop_runs_out hc hb
    obtain ⟨ts, hts, hpop⟩ := pop_resumes hc (h.strung.placed _ (List.mem_of_getElem? hk)) hp hgets
    have hfinishes := finishes (fun _ _ => rfl) hpop hk
    refine ⟨d, ts, hd, hfinishes, by omega, ?_⟩
    have hhead : (c.solo k ts.length).chain.head = c.chain.nodes.size - 1 := by
      rw [hfinishes.chain]
      exact hd.head
    rw [h.strung.passes_solo, hhead, hc.linked_eq, Nat.sub_sub, Nat.add_comm 1]

end Crew

/-- After every run, whoever goes on alone gets to the end. -/
theorem calls_finish_unaided (n : Nat) (es : List (Crew.Event σ α)) : ((Crew.start n).run es).Unaided :=
  (Crew.custody_run (Crew.custody_start n) es).unaided

/-- The removal of the first element has stopped after its claim, and a push before it moved the tail. -/
example :
    let c := (Crew.start 4 : Crew Unit Nat).run (.begin 0 (.push 10) :: .replicate 4 (.turn 0) ++
      .begin 0 (.push 20) :: .replicate 4 (.turn 0) ++
      .begin 1 (.walk (.remove (Job.plain (· == 10)) none) ()) :: .replicate 7 (.turn 1) ++
      .begin 0 (.push 30) :: .replicate 3 (.turn 0))
    ((c.step (.begin 2 .pop)).solo 2 14).returned = [(2, 2, 20)] ∧
      ((c.step (.begin 3 (.push 40))).solo 3 7).chain.toList = [20, 30, 40] := by
  decide +kernel

end BusyWait
