import BusyWait.Proofs.Queue.Crew
import BusyWait.Proofs.Queue.Quiet
import Mathlib.Data.List.Nodup

/-
  BusyWait.Proofs.Queue.Links — head, tail and links while any number of threads push,
  pop and walk.

  The invariant of the chain (`Strung`): every node is linked to the one after it, the
  tail is the last node or the one before, the head is at most one node past the tail,
  and what is retired is behind both. It is carried by what each call in progress has
  seen (`Act.Placed`), which no access of another call can take back, and by two calls
  that cannot be missing: a push that is about to swing a tail that lags (`Act.Swings`),
  and a pop that is about to look after a tail that the head has overtaken
  (`Act.SeesTo`).

  - `Act.Placed.proceeds`: one access of any call.
  - `Crew.Strung.advances`: head and tail move by one node at a time, a link is written
    once.
  - `chain_in_line`: all this after every run, and that the tail is the last node
    whenever nobody is in a call.
-/

namespace BusyWait

variable {σ α : Type}

namespace Chain

structure Strung (c : Chain α) : Prop where
  next : c.Linked
  head : c.head < c.nodes.size
  tail : c.tail < c.nodes.size
  /-- The tail is the last node or the one before. -/
  near : c.nodes.size ≤ c.tail + 2
  /-- The head is at most one node past the tail. -/
  ahead : c.head ≤ c.tail + 1
  retired : ∀ i < c.nodes.size, (c.node i).retired = true → i < c.head ∧ i < c.tail

/-- A later state of a chain in which each of head, tail and end has moved by one node at most. -/
structure Advances (c c' : Chain α) : Prop where
  size : c'.nodes.size = c.nodes.size ∨ c'.nodes.size = c.nodes.size + 1
  head : c'.head = c.head ∨ c'.head = c.head + 1
  tail : c'.tail = c.tail ∨ c'.tail = c.tail + 1
  /-- A link that is there stays as it is, and a new one leads to the following node. -/
  next : ∀ i < c.nodes.size, (c'.node i).next = (c.node i).next ∨
    (c.node i).next = none ∧ (c'.node i).next = some (i + 1)
  retired : ∀ i < c.nodes.size, (c.node i).retired = true → (c'.node i).retired = true

/-- Links and marks of retirement are as they were. -/
structure SameLinks (c c' : Chain α) : Prop where
  size : c'.nodes.size = c.nodes.size
  next : ∀ i, (c'.node i).next = (c.node i).next
  retired : ∀ i, (c'.node i).retired = (c.node i).retired

variable {c c' : Chain α}

theorem SameLinks.refl (c : Chain α) : c.SameLinks c := ⟨rfl, fun _ => rfl, fun _ => rfl⟩

theorem sameLinks_setWord (c : Chain α) (i : Nat) (w : Word) : c.SameLinks (c.setWord i w) := by
  refine ⟨size_setWord .., fun j => next_setWord .., ?_⟩
  intro j
  rw [setWord, node_modify_eq]
  split <;> rfl

theorem sameLinks_setSlot (c : Chain α) (i : Nat) (s : Slot α) : c.SameLinks (c.setSlot i s) := by
  refine ⟨size_setSlot .., fun j => next_setSlot .., ?_⟩
  intro j
  rw [setSlot, node_modify_eq]
  split <;> rfl

theorem sameLinks_of_nodes (h : c'.nodes = c.nodes) : c.SameLinks c' := by
  refine ⟨by rw [h], ?_, ?_⟩
  · intro i
    rw [node, h, node]
  · intro i
    rw [node, h, node]

theorem SameLinks.linked (h : c.SameLinks c') (hc : c.Linked) : c'.Linked := by
  intro i hi
  rw [h.next, h.size]
  exact hc i (h.size ▸ hi)

/-- Head and tail may move where links do not change. -/
theorem SameLinks.advances (h : c.SameLinks c') (hh : c'.head = c.head ∨ c'.head = c.head + 1)
    (ht : c'.tail = c.tail ∨ c'.tail = c.tail + 1) : c.Advances c' := by
  refine ⟨.inl h.size, hh, ht, ?_, ?_⟩
  · intro i _
    exact .inl (h.next i)
  · intro i _ hi
    rw [h.retired]
    exact hi

theorem SameLinks.strung (h : c.SameLinks c') (hc : c.Strung) (hh : c.head ≤ c'.head) (ht : c.tail ≤ c'.tail)
    (hlast : c'.head < c.nodes.size ∧ c'.tail < c.nodes.size) (hahead : c'.head ≤ c'.tail + 1) : c'.Strung := by
  have hnear := hc.near
  have hsize := h.size
  refine ⟨h.linked hc.next, by omega, by omega, by omega, hahead, ?_⟩
  intro i hi hr
  rw [h.retired] at hr
  have := hc.retired i (hsize ▸ hi) hr
  omega

/-! ## A new node behind the tail -/

theorem retired_link (c : Chain α) (t : Nat) (a : α) {i : Nat} (hi : i < c.nodes.size) :
    ((c.link t a).node i).retired = (c.node i).retired := by
  rw [node_link c t i a (by omega), if_neg (by omega)]
  split <;> rfl

theorem next_link (c : Chain α) (t : Nat) (a : α) {i : Nat} (hi : i < c.nodes.size) :
    ((c.link t a).node i).next = if t = i then some c.nodes.size else (c.node i).next := by
  rw [node_link c t i a (by omega), if_neg (by omega)]
  split <;> rfl

theorem Linked.link (hc : c.Linked) {t : Nat} (ht : t + 1 = c.nodes.size) (a : α) : (c.link t a).Linked := by
  intro i hi
  rw [size_link] at hi ⊢
  by_cases hlast : i = c.nodes.size
  · rw [node_link c t i a (by omega), if_pos hlast, if_neg (by omega)]
    rfl
  have hi : i < c.nodes.size := by omega
  rw [next_link c t a hi, if_pos (Nat.succ_lt_succ hi)]
  by_cases hit : t = i
  · rw [if_pos hit, ← ht, hit]
  · rw [if_neg hit, hc i hi, if_pos (by omega)]

theorem Strung.link (hc : c.Strung) (ht : c.tail + 1 = c.nodes.size) (a : α) : (c.link c.tail a).Strung := by
  have hhead : (c.link c.tail a).head = c.head := rfl
  have htail : (c.link c.tail a).tail = c.tail := rfl
  have hlt := hc.head
  have hahead := hc.ahead
  refine ⟨hc.next.link ht a, ?_, ?_, ?_, hc.ahead, ?_⟩
  · rw [size_link, hhead]
    omega
  · rw [size_link, htail]
    omega
  · rw [size_link, htail]
    omega
  · intro i hi hr
    rw [size_link] at hi
    by_cases hin : i < c.nodes.size
    · rw [retired_link c _ a hin] at hr
      exact hc.retired i hin hr
    · rw [node_link c _ i a (by omega), if_pos (by omega)] at hr
      cases hr

theorem Strung.advances_link (hc : c.Strung) (ht : c.tail + 1 = c.nodes.size) (a : α) :
    c.Advances (c.link c.tail a) := by
  have hnext := hc.next c.tail hc.tail
  rw [if_neg (by omega)] at hnext
  refine ⟨.inr (size_link ..), .inl rfl, .inl rfl, ?_, ?_⟩
  · intro i hi
    rw [next_link c _ a hi]
    by_cases hit : c.tail = i
    · rw [if_pos hit, ← hit, ← ht]
      exact .inr ⟨hnext, rfl⟩
    · rw [if_neg hit]
      exact .inl rfl
  · intro i hi hr
    rw [retired_link c _ a hi]
    exact hr

/-! ## A node behind head and tail -/

/-- The node is nobody's any more. -/
def retire (c : Chain α) (i : Nat) : Chain α := c.modify i fun m => { m with retired := true }

theorem next_retire (c : Chain α) (i j : Nat) : ((c.retire i).node j).next = (c.node j).next := by
  rw [retire, node_modify_eq]
  split <;> rfl

theorem retired_retire (c : Chain α) (i j : Nat) (hj : j < c.nodes.size) :
    ((c.retire i).node j).retired = if i = j then true else (c.node j).retired := by
  rw [retire, node_modify c i j _ hj]
  split <;> rfl

theorem advances_retire (c : Chain α) (i : Nat) : c.Advances (c.retire i) := by
  refine ⟨.inl (size_modify ..), .inl rfl, .inl rfl, ?_, ?_⟩
  · intro j _
    exact .inl (next_retire ..)
  · intro j hj hr
    rw [retired_retire c i j hj]
    split
    · rfl
    · exact hr

theorem Strung.retire (hc : c.Strung) {i : Nat} (hh : i < c.head) (ht : i < c.tail) : (c.retire i).Strung := by
  have hsize : (c.retire i).nodes.size = c.nodes.size := size_modify ..
  refine ⟨?_, hsize ▸ hc.head, hsize ▸ hc.tail, hsize ▸ hc.near, hc.ahead, ?_⟩
  · intro j hj
    rw [next_retire, hsize]
    exact hc.next j (hsize ▸ hj)
  · intro j hj hr
    rw [retired_retire c i j (hsize ▸ hj)] at hr
    split at hr
    · rename_i hij
      exact hij ▸ ⟨hh, ht⟩
    · exact hc.retired j (hsize ▸ hj) hr

end Chain

open Chain

/-! ## What a call in progress has seen -/

/-- The nodes that the call is about to use are where the call takes them to be. -/
def Act.Placed (c : Chain α) : Act σ α → Prop
  | .push (.readNext _ t) | .push (.link _ t) => t ≤ c.tail
  | .push (.help _ t n) | .push (.swing t n) => n = t + 1 ∧ n < c.nodes.size ∧ t ≤ c.tail
  | .pop (.readNext h) => h ≤ c.head
  | .pop (.moveHead h n) => n = h + 1 ∧ n < c.nodes.size
  | .pop (.readTail h n) | .pop (.fixTail h n) => n = h + 1 ∧ n ≤ c.head
  | .pop (.retire h n) => n = h + 1 ∧ n ≤ c.head ∧ n ≤ c.tail
  | .push (.readTail _) | .pop _ | .walk _ _ => True

/-- What a call has seen no access takes back. -/
theorem Act.Placed.later {c c' : Chain α} {v : Act σ α} (h : v.Placed c) (hc : c.Advances c') : v.Placed c' := by
  have hsize := hc.size
  have hhead := hc.head
  have htail := hc.tail
  cases v with
  | push p => cases p <;> simp only [Placed] at h ⊢ <;> omega
  | pop p => cases p <;> simp only [Placed] at h ⊢ <;> omega
  | walk aim w => trivial

/-- The pop is to see to the tail that the head has left behind. -/
def Act.SeesTo (c : Chain α) (v : Act σ α) : Prop :=
  v = .pop (.readTail c.tail c.head) ∨ v = .pop (.fixTail c.tail c.head)

/-- The push is to swing a tail that lags. -/
def Act.Swings (c : Chain α) (v : Act σ α) : Prop := v = .push (.swing c.tail (c.tail + 1))

theorem not_seesTo_push {c : Chain α} {p : Push α} : ¬ (Act.push p : Act σ α).SeesTo c := by simp [Act.SeesTo]

theorem not_seesTo_walk {c : Chain α} {aim : Aim σ α} {w : Walk σ α} : ¬ (Act.walk aim w).SeesTo c := by
  simp [Act.SeesTo]

theorem not_swings_pop {c : Chain α} {p : Pop} : ¬ (Act.pop p : Act σ α).Swings c := by simp [Act.Swings]

theorem not_swings_walk {c : Chain α} {aim : Aim σ α} {w : Walk σ α} : ¬ (Act.walk aim w).Swings c := by
  simp [Act.Swings]

/-- What an access of `v` makes of a chain, and of what is left of `v`. -/
structure Proceeds (c : Chain α) (v : Act σ α) (c' : Chain α) (u : Option (Act σ α)) : Prop where
  advances : c.Advances c'
  strung : c'.Strung
  placed : ∀ w, u = some w → w.Placed c'
  /-- Who leaves a tail that lags is to swing it, or somebody else is. -/
  lagging : c'.tail + 1 < c'.nodes.size → (∃ w, u = some w ∧ w.Swings c') ∨
    c'.tail = c.tail ∧ c.tail + 1 < c.nodes.size ∧ ¬ v.Swings c
  overtaken : c'.head = c'.tail + 1 → (∃ w, u = some w ∧ w.SeesTo c') ∨
    c'.head = c.head ∧ c'.tail = c.tail ∧ ¬ v.SeesTo c

section
variable {c c' : Chain α} {v : Act σ α} {u : Option (Act σ α)}

/-- An access that moves nothing, of a call that is to see to nothing. -/
theorem proceeds_still (hc : c.Strung) (h : c.SameLinks c') (hh : c'.head = c.head) (ht : c'.tail = c.tail)
    (hu : ∀ w, u = some w → w.Placed c') (hs : ¬ v.Swings c) (hf : ¬ v.SeesTo c) : Proceeds c v c' u := by
  have hsize := h.size
  have hhead := hc.head
  have htail := hc.tail
  have hahead := hc.ahead
  refine ⟨h.advances (.inl hh) (.inl ht), h.strung hc (by omega) (by omega) (by omega) (by omega), hu, ?_, ?_⟩
  · intro hl
    exact .inr ⟨ht, by omega, hs⟩
  · intro ho
    exact .inr ⟨hh, ht, hf⟩

/-- A swap of the tail for the next node, whether it succeeds or not. -/
theorem proceeds_swapTail {t : Nat} (hc : c.Strung) (hn : t + 1 < c.nodes.size)
    (hu : ∀ w, u = some w → w.Placed (c.swapTail t (t + 1))) (hs : v.Swings c → t = c.tail)
    (hf : v.SeesTo c → t = c.tail) : Proceeds c v (c.swapTail t (t + 1)) u := by
  have hnodes : c.SameLinks (c.swapTail t (t + 1)) := sameLinks_of_nodes (nodes_swapTail ..)
  have hhead : (c.swapTail t (t + 1)).head = c.head := by unfold swapTail; split <;> rfl
  by_cases ht : c.tail = t
  · have htail : (c.swapTail t (t + 1)).tail = c.tail + 1 := by simp [swapTail, ht]
    have hsize := hnodes.size
    have hlt := hc.head
    have hnear := hc.near
    have hahead := hc.ahead
    refine ⟨hnodes.advances (.inl hhead) (.inr htail),
      hnodes.strung hc (by omega) (by omega) (by omega) (by omega), hu, ?_, ?_⟩
    · intro hl
      omega
    · intro ho
      omega
  · have htail : (c.swapTail t (t + 1)).tail = c.tail := by simp [swapTail, ht]
    exact proceeds_still hc hnodes hhead htail hu (fun h => ht (hs h).symm) (fun h => ht (hf h).symm)

end

/-! ## The accesses of a push -/

theorem push_proceeds {c : Chain α} (hc : c.Strung) {p : Push α} (hp : (Act.push p : Act σ α).Placed c) :
    Proceeds c (.push p : Act σ α) ((Act.push p : Act σ α).step c).1 ((Act.push p : Act σ α).step c).2 := by
  have htail := hc.tail
  have still : ∀ {q : Push α} {u : Option (Act σ α)}, (∀ w, u = some w → w.Placed c) →
      ¬ (Act.push q : Act σ α).Swings c → Proceeds c (.push q) c u := by
    intro q u hu hs
    exact proceeds_still hc (.refl c) rfl rfl hu hs not_seesTo_push
  cases p with
  | readTail a =>
    refine still ?_ (by simp [Act.Swings])
    rintro _ ⟨⟩
    exact Nat.le_refl _
  | readNext a t =>
    have ht : t ≤ c.tail := hp
    have hnext := hc.next t (by omega)
    by_cases hlt : t + 1 < c.nodes.size
    · rw [if_pos hlt] at hnext
      simp only [Act.step, Push.step, hnext, Act.onward]
      refine still ?_ (by simp [Act.Swings])
      rintro _ ⟨⟩
      exact ⟨rfl, hlt, ht⟩
    · rw [if_neg hlt] at hnext
      simp only [Act.step, Push.step, hnext, Act.onward]
      refine still ?_ (by simp [Act.Swings])
      rintro _ ⟨⟩
      exact ht
  | help a t n =>
    obtain ⟨rfl, hn, -⟩ := hp
    refine proceeds_swapTail hc hn ?_ (by simp [Act.Swings]) (absurd · not_seesTo_push)
    rintro _ ⟨⟩
    trivial
  | link a t =>
    have ht : t ≤ c.tail := hp
    have hnext := hc.next t (by omega)
    by_cases hlt : t + 1 < c.nodes.size
    · rw [if_pos hlt] at hnext
      simp only [Act.step, Push.step, hnext, Act.onward]
      refine still ?_ (by simp [Act.Swings])
      rintro _ ⟨⟩
      trivial
    · rw [if_neg hlt] at hnext
      obtain rfl : t = c.tail := by omega
      have hlast : c.tail + 1 = c.nodes.size := by omega
      simp only [Act.step, Push.step, hnext, Act.onward, ↓reduceIte, ← hlast]
      refine ⟨hc.advances_link hlast a, hc.link hlast a, ?_, ?_, ?_⟩
      · rintro _ ⟨⟩
        refine ⟨rfl, ?_, Nat.le_refl _⟩
        rw [size_link, hlast]
        exact Nat.lt_succ_self _
      · intro _
        exact .inl ⟨_, rfl, rfl⟩
      · intro _
        exact .inr ⟨rfl, rfl, not_seesTo_push⟩
  | swing t n =>
    obtain ⟨rfl, hn, -⟩ := hp
    refine proceeds_swapTail hc hn ?_ ?_ (absurd · not_seesTo_push)
    · intro w hw
      cases hw
    · intro h
      cases h
      rfl

/-! ## The accesses of a pop -/

/-- The head moves onto the next node. -/
theorem proceeds_swapHead {c : Chain α} (hc : c.Strung) (hn : c.head + 1 < c.nodes.size) :
    Proceeds c (.pop (.moveHead c.head (c.head + 1)) : Act σ α) (c.swapHead c.head (c.head + 1))
      (some (.pop (.readTail c.head (c.head + 1)))) := by
  have hnodes : c.SameLinks (c.swapHead c.head (c.head + 1)) := sameLinks_of_nodes (nodes_swapHead ..)
  have hhead : (c.swapHead c.head (c.head + 1)).head = c.head + 1 := by simp [swapHead]
  have htail : (c.swapHead c.head (c.head + 1)).tail = c.tail := by simp [swapHead]
  have hsize := hnodes.size
  have hnear := hc.near
  have hlt := hc.tail
  refine ⟨hnodes.advances (.inr hhead) (.inl htail),
    hnodes.strung hc (by omega) (by omega) (by omega) (by omega), ?_, ?_, ?_⟩
  · rintro _ ⟨⟩
    exact ⟨rfl, Nat.le_of_eq hhead.symm⟩
  · intro hl
    exact .inr ⟨htail, by omega, not_swings_pop⟩
  · intro ho
    refine .inl ⟨_, rfl, .inl ?_⟩
    rw [hhead, htail, show c.tail = c.head by omega]

/-- Who finds the tail behind the head is to see to it. -/
theorem proceeds_readTail {c : Chain α} (hc : c.Strung) (hn : c.tail + 1 ≤ c.head) :
    Proceeds c (.pop (.readTail c.tail (c.tail + 1)) : Act σ α) c (some (.pop (.fixTail c.tail (c.tail + 1)))) := by
  refine ⟨(SameLinks.refl c).advances (.inl rfl) (.inl rfl), hc, ?_, ?_, ?_⟩
  · rintro _ ⟨⟩
    exact ⟨rfl, hn⟩
  · intro hl
    exact .inr ⟨rfl, hl, not_swings_pop⟩
  · intro ho
    refine .inl ⟨_, rfl, .inr ?_⟩
    rw [ho]

theorem proceeds_retire {c : Chain α} (hc : c.Strung) {h : Nat} (hh : h < c.head) (ht : h < c.tail) :
    Proceeds c (.pop (.retire h (h + 1)) : Act σ α) (c.retire h) (some (.pop (.claim (h + 1)))) := by
  refine ⟨advances_retire c h, hc.retire hh ht, ?_, ?_, ?_⟩
  · rintro _ ⟨⟩
    trivial
  · intro hl
    rw [Chain.retire, size_modify] at hl
    exact .inr ⟨rfl, hl, not_swings_pop⟩
  · intro _
    exact .inr ⟨rfl, rfl, by simp [Act.SeesTo]⟩

theorem pop_proceeds {c : Chain α} (hc : c.Strung) {p : Pop} (hp : (Act.pop p : Act σ α).Placed c) :
    Proceeds c (.pop p : Act σ α) ((Act.pop p : Act σ α).step c).1 ((Act.pop p : Act σ α).step c).2 := by
  have hhead := hc.head
  have hahead := hc.ahead
  have still : ∀ {c' : Chain α} {q : Pop} {u : Option (Act σ α)}, c.SameLinks c' → c'.head = c.head → c'.tail = c.tail →
      (∀ w, u = some w → w.Placed c') → ¬ (Act.pop q : Act σ α).SeesTo c → Proceeds c (.pop q) c' u := by
    intro c' q u h hh ht hu hf
    exact proceeds_still hc h hh ht hu not_swings_pop hf
  cases p with
  | readHead =>
    refine still (.refl c) rfl rfl ?_ (by simp [Act.SeesTo])
    rintro _ ⟨⟩
    exact Nat.le_refl _
  | readNext h =>
    have hle : h ≤ c.head := hp
    have hnext := hc.next h (by omega)
    by_cases hlt : h + 1 < c.nodes.size
    · rw [if_pos hlt] at hnext
      simp only [Act.step, Pop.step, hnext, Act.onward]
      refine still (.refl c) rfl rfl ?_ (by simp [Act.SeesTo])
      rintro _ ⟨⟩
      exact ⟨rfl, hlt⟩
    · rw [if_neg hlt] at hnext
      simp only [Act.step, Pop.step, hnext, Act.onward]
      exact still (.refl c) rfl rfl (by simp) (by simp [Act.SeesTo])
  | moveHead h n =>
    obtain ⟨rfl, hn⟩ := hp
    by_cases hh : c.head = h
    · subst hh
      simp only [Act.step, Pop.step, ↓reduceIte, Act.onward]
      exact proceeds_swapHead hc hn
    · simp only [Act.step, Pop.step, if_neg hh, Act.onward]
      refine still (.refl c) rfl rfl ?_ (by simp [Act.SeesTo])
      rintro _ ⟨⟩
      trivial
  | readTail h n =>
    obtain ⟨rfl, hn⟩ := hp
    by_cases ht : c.tail = h
    · subst ht
      simp only [Act.step, Pop.step, ↓reduceIte, Act.onward]
      exact proceeds_readTail hc hn
    · simp only [Act.step, Pop.step, if_neg ht, Act.onward]
      refine still (.refl c) rfl rfl ?_ ?_
      · rintro _ ⟨⟩
        exact ⟨rfl, hn, by omega⟩
      · intro hf
        simp only [Act.SeesTo, Act.pop.injEq, Pop.readTail.injEq, reduceCtorEq, or_false] at hf
        exact ht hf.1.symm
  | fixTail h n =>
    obtain ⟨rfl, hn⟩ := hp
    refine proceeds_swapTail hc (by omega) ?_ (absurd · not_swings_pop) ?_
    · rintro _ ⟨⟩
      refine ⟨rfl, ?_, ?_⟩
      · unfold swapTail
        split <;> exact hn
      · unfold swapTail
        split
        · exact Nat.le_refl _
        · omega
    · intro hf
      simp only [Act.SeesTo, Act.pop.injEq, Pop.fixTail.injEq, reduceCtorEq, false_or] at hf
      exact hf.1
  | retire h n =>
    obtain ⟨rfl, hn, ht⟩ := hp
    exact proceeds_retire hc hn ht
  | claim n =>
    refine still (sameLinks_setWord ..) rfl rfl ?_ (by simp [Act.SeesTo])
    rintro _ ⟨⟩
    split <;> trivial
  | drain n d =>
    have hchain : ((Act.pop (.drain n d) : Act σ α).step c).1 = c := Pop.step_drain_chain c n d
    rw [hchain]
    refine still (.refl c) rfl rfl ?_ (by simp [Act.SeesTo])
    intro u hu
    by_cases hw : (c.node n).word = .owned
    · rw [Act.step, Pop.step_drain_owned hw] at hu
      cases hu
      trivial
    · rcases Pop.step_drain_busy hw d with ⟨d', hd⟩ | hd <;> rw [Act.step, hd] at hu <;> cases hu <;> trivial
  | lost n =>
    refine still (.refl c) rfl rfl ?_ (by simp [Act.SeesTo])
    rintro _ ⟨⟩
    trivial
  | take n =>
    simp only [Act.step, Pop.step]
    split <;> simp only [Act.onward]
    · exact still (sameLinks_setSlot ..) rfl rfl (by simp) (by simp [Act.SeesTo])
    · exact still (.refl c) rfl rfl (by simp) (by simp [Act.SeesTo])

/-! ## The accesses of a walk -/

/-- A walk changes words and slots only. -/
theorem walk_sameLinks (aim : Aim σ α) (c : Chain α) (w : Walk σ α) :
    c.SameLinks (w.step aim c).1 ∧ (w.step aim c).1.head = c.head ∧ (w.step aim c).1.tail = c.tail := by
  have same : c.SameLinks c ∧ c.head = c.head ∧ c.tail = c.tail := ⟨.refl c, rfl, rfl⟩
  have word : ∀ v, c.SameLinks (c.setWord w.cursor v) ∧ (c.setWord w.cursor v).head = c.head ∧
      (c.setWord w.cursor v).tail = c.tail := fun v => ⟨sameLinks_setWord .., rfl, rfl⟩
  obtain ⟨stage, cursor, state, removed⟩ := w
  cases stage with
  | readHead =>
    simp only [Walk.step]
    split <;> exact same
  | seek =>
    simp only [Walk.step]
    split <;> exact same
  | enter e =>
    simp only [Walk.step]
    split <;> exact word _
  | inside =>
    simp only [Walk.step]
    split <;> exact same
  | leave s =>
    simp only [Walk.step]
    split <;> exact word _
  | claim => exact word _
  | drain d =>
    simp only [Walk.step]
    split <;> exact same
  | lost => exact same
  | drop =>
    simp only [Walk.step]
    split
    · exact ⟨sameLinks_setSlot .., rfl, rfl⟩
    · exact same

theorem walk_proceeds {c : Chain α} (hc : c.Strung) (aim : Aim σ α) (w : Walk σ α) :
    Proceeds c (.walk aim w) ((Act.walk aim w).step c).1 ((Act.walk aim w).step c).2 := by
  obtain ⟨hs, hh, ht⟩ := walk_sameLinks aim c w
  refine proceeds_still hc hs hh ht ?_ not_swings_walk not_seesTo_walk
  intro u hu
  cases hw : (w.step aim c).2 <;> simp only [Act.step, Act.onward, hw] at hu <;> cases hu
  trivial

/-- What the accesses of all calls have in common. -/
theorem Act.Placed.proceeds {c : Chain α} {v : Act σ α} (hv : v.Placed c) (hc : c.Strung) :
    Proceeds c v (v.step c).1 (v.step c).2 := by
  cases v with
  | push p => exact push_proceeds hc hv
  | pop p => exact pop_proceeds hc hv
  | walk aim w => exact walk_proceeds hc aim w

/-! ## What the log says of links and moves -/

@[simp] theorem Chain.head_swapTail (c : Chain α) (i j : Nat) : (c.swapTail i j).head = c.head := by
  unfold swapTail
  split <;> rfl

/-- An access links a new node, or moves the head, or does neither; the log says which. -/
theorem Act.Placed.deed?_cases {c : Chain α} {v : Act σ α} (hv : v.Placed c) :
    (∃ a, v.deed? c = some (.linked c.nodes.size a) ∧ (v.step c).1.nodes.size = c.nodes.size + 1 ∧
      (v.step c).1.head = c.head) ∨
    (v.deed? c = some (.passed (c.head + 1)) ∧ (v.step c).1.nodes.size = c.nodes.size ∧
      (v.step c).1.head = c.head + 1) ∨
    ((∀ d, v.deed? c = some d → d.link? = none ∧ d.pass? = none) ∧ (v.step c).1.nodes.size = c.nodes.size ∧
      (v.step c).1.head = c.head) := by
  have silent : v.deed? c = none → ∀ d, v.deed? c = some d → d.link? = none ∧ d.pass? = none := by
    intro h d hd
    rw [h] at hd
    cases hd
  cases v with
  | push p =>
    cases p with
    | link a t =>
      by_cases h : (c.node t).next = none
      · refine .inl ⟨a, by rw [deed?_link, if_pos h], ?_⟩
        simp only [step, Push.step, h, ↓reduceIte]
        exact ⟨size_link .., rfl⟩
      · refine .inr (.inr ⟨silent (by rw [deed?_link, if_neg h]), ?_⟩)
        simp [step, Push.step, h]
    | readNext a t =>
      refine .inr (.inr ⟨silent rfl, ?_⟩)
      cases h : (c.node t).next <;> simp [step, Push.step, h]
    | readTail a => exact .inr (.inr ⟨silent rfl, rfl, rfl⟩)
    | help a t n => exact .inr (.inr ⟨silent rfl, by simp [step, Push.step]⟩)
    | swing t n => exact .inr (.inr ⟨silent rfl, by simp [step, Push.step]⟩)
  | pop p =>
    cases p with
    | moveHead h n =>
      obtain ⟨rfl, -⟩ := hv
      by_cases hh : c.head = h
      · refine .inr (.inl ⟨by rw [deed?_moveHead, if_pos hh, hh], ?_⟩)
        simp [step, Pop.step, swapHead, hh]
      · refine .inr (.inr ⟨silent (by rw [deed?_moveHead, if_neg hh]), ?_⟩)
        simp [step, Pop.step, hh]
    | drain n d =>
      rw [step, Pop.step_drain_chain]
      refine .inr (.inr ⟨?_, rfl, rfl⟩)
      rw [deed?_drain]
      intro d hd
      split at hd
      · cases hd
        exact ⟨rfl, rfl⟩
      · cases hd
    | take n =>
      refine .inr (.inr ⟨?_, ?_⟩)
      · rw [deed?_take]
        intro d hd
        obtain ⟨a, -, rfl⟩ := Option.map_eq_some_iff.mp hd
        exact ⟨rfl, rfl⟩
      · cases hs : (c.node n).slot <;> simp [step, Pop.step, hs, setSlot]
    | readNext h =>
      refine .inr (.inr ⟨silent rfl, ?_⟩)
      cases hn : (c.node h).next <;> simp [step, Pop.step, hn]
    | readHead => exact .inr (.inr ⟨silent rfl, rfl, rfl⟩)
    | readTail h n => exact .inr (.inr ⟨silent rfl, rfl, rfl⟩)
    | fixTail h n => exact .inr (.inr ⟨silent rfl, by simp [step, Pop.step]⟩)
    | retire h n => exact .inr (.inr ⟨silent rfl, size_modify .., rfl⟩)
    | claim n => exact .inr (.inr ⟨silent rfl, size_setWord .., rfl⟩)
    | lost n => exact .inr (.inr ⟨silent rfl, rfl, rfl⟩)
  | walk aim w =>
    obtain ⟨hs, hh, -⟩ := walk_sameLinks aim c w
    refine .inr (.inr ⟨?_, hs.size, hh⟩)
    rcases deed?_walk c aim w with h | ⟨n, h | h⟩ <;> rw [h] <;> rintro _ ⟨⟩ <;> exact ⟨rfl, rfl⟩

namespace Crew

/-! ## Runs -/

/-- What holds of chain, calls and log together. -/
structure Strung (c : Crew σ α) : Prop where
  chain : c.chain.Strung
  placed : ∀ v, some v ∈ c.threads → v.Placed c.chain
  lagging : c.chain.tail + 1 < c.chain.nodes.size → ∃ v, some v ∈ c.threads ∧ v.Swings c.chain
  overtaken : c.chain.head = c.chain.tail + 1 → ∃ v, some v ∈ c.threads ∧ v.SeesTo c.chain
  /-- Nodes have their numbers from the order in which they were linked. -/
  sent : c.sent.map (·.2.1) = List.range' 1 (c.chain.nodes.size - 1)
  passes : c.passes.map (·.2) = List.range' 1 c.chain.head
  tracked : c.Tracked

theorem strung_start (n : Nat) : (start n : Crew σ α).Strung := by
  refine ⟨?_, forall_start n, ?_, ?_, rfl, rfl, tracked_start n⟩
  · refine ⟨?_, Nat.one_pos, Nat.one_pos, Nat.le_succ 1, Nat.zero_le 1, ?_⟩
    · intro i hi
      obtain rfl : i = 0 := Nat.lt_one_iff.mp hi
      rfl
    · intro i hi hr
      obtain rfl : i = 0 := Nat.lt_one_iff.mp hi
      cases hr
  · intro h
    cases Nat.lt_irrefl 1 h
  · intro h
    cases h

theorem Strung.enlist {c : Crew σ α} (h : c.Strung) {k : Nat} (hk : c.threads[k]? = some none) (e : Errand σ α) :
    (c.enlist k e.act).Strung := by
  have others : ∀ v, some v ∈ c.threads → some v ∈ (c.enlist k e.act).threads :=
    fun v hv => mem_set_of_ne hk hv (by simp)
  refine ⟨h.chain, ?_, ?_, ?_, h.sent, h.passes, ?_⟩
  · intro v hv
    rcases List.mem_or_eq_of_mem_set hv with hv | hv
    · exact h.placed v hv
    · cases hv
      cases e <;> trivial
  · intro hl
    obtain ⟨v, hv, hs⟩ := h.lagging hl
    exact ⟨v, others v hv, hs⟩
  · intro ho
    obtain ⟨v, hv, hs⟩ := h.overtaken ho
    exact ⟨v, others v hv, hs⟩
  · have := tracked_step (.begin k e) h.tracked
    simpa only [step, hk] using this

theorem Strung.turn {c : Crew σ α} (h : c.Strung) {k : Nat} {v : Act σ α} (hk : c.threads[k]? = some (some v)) :
    (c.turn k v).Strung := by
  have hv := h.placed v (List.mem_of_getElem? hk)
  have hp := hv.proceeds h.chain
  have others : ∀ w, some w ∈ c.threads → w ≠ v → some w ∈ (c.turn k v).threads :=
    fun w hw hne => mem_set_of_ne hk hw fun e => hne (Option.some.inj e)
  have own : ∀ w, (v.step c.chain).2 = some w → some w ∈ (c.turn k v).threads :=
    fun w hw => hw ▸ mem_set_self hk
  refine ⟨hp.strung, ?_, ?_, ?_, ?_, ?_, ?_⟩
  · intro w hw
    rcases List.mem_or_eq_of_mem_set hw with hw | hw
    · exact (h.placed w hw).later hp.advances
    · exact hp.placed w hw.symm
  · intro hl
    rcases hp.lagging hl with ⟨w, hw, hs⟩ | ⟨ht, hl, hs⟩
    · exact ⟨w, own w hw, hs⟩
    · obtain ⟨w, hw, hs'⟩ := h.lagging hl
      refine ⟨w, others w hw ?_, ?_⟩
      · rintro rfl
        exact hs hs'
      · rw [Act.Swings] at hs' ⊢
        rw [hs', show (c.turn k v).chain.tail = c.chain.tail from ht]
  · intro ho
    rcases hp.overtaken ho with ⟨w, hw, hs⟩ | ⟨hh, ht, hs⟩
    · exact ⟨w, own w hw, hs⟩
    · obtain ⟨w, hw, hs'⟩ := h.overtaken (hh ▸ ht ▸ ho)
      refine ⟨w, others w hw ?_, ?_⟩
      · rintro rfl
        exact hs hs'
      · rw [Act.SeesTo] at hs' ⊢
        rw [show (c.turn k v).chain.tail = c.chain.tail from ht, show (c.turn k v).chain.head = c.chain.head from hh]
        exact hs'
  · have hsize := h.chain.head
    rw [Crew.sent, logged_turn, List.map_append, show (c.logged Deed.link?).map (·.2.1) = _ from h.sent]
    rcases hv.deed?_cases with ⟨a, hd, hs, -⟩ | ⟨hd, hs, -⟩ | ⟨hd, hs, -⟩
    · rw [hd, show (c.turn k v).chain.nodes.size = _ from hs, Nat.add_sub_cancel]
      obtain ⟨n, hn⟩ : ∃ n, c.chain.nodes.size = n + 1 := ⟨c.chain.nodes.size - 1, by omega⟩
      rw [hn, List.range'_1_concat, Nat.add_comm 1 n]
      rfl
    · rw [hd, show (c.turn k v).chain.nodes.size = _ from hs]
      exact List.append_nil _
    · have hnone : (v.deed? c.chain).bind Deed.link? = none := Option.bind_eq_none_iff.mpr fun d hd' => (hd d hd').1
      rw [hnone, show (c.turn k v).chain.nodes.size = _ from hs]
      exact List.append_nil _
  · rw [Crew.passes, logged_turn, List.map_append, show (c.logged Deed.pass?).map (·.2) = _ from h.passes]
    rcases hv.deed?_cases with ⟨a, hd, -, hh⟩ | ⟨hd, -, hh⟩ | ⟨hd, -, hh⟩
    · rw [hd, show (c.turn k v).chain.head = _ from hh]
      exact List.append_nil _
    · rw [hd, show (c.turn k v).chain.head = _ from hh, List.range'_1_concat, Nat.add_comm 1]
      rfl
    · have hnone : (v.deed? c.chain).bind Deed.pass? = none := Option.bind_eq_none_iff.mpr fun d hd' => (hd d hd').2
      rw [hnone, show (c.turn k v).chain.head = _ from hh]
      exact List.append_nil _
  · have := tracked_step (.turn k) h.tracked
    simpa only [step, hk] using this

theorem strung_step (c : Crew σ α) (e : Event σ α) (h : c.Strung) : (c.step e).Strung :=
  step_keeps h (fun _ e hk => h.enlist hk e) (fun _ _ hk => h.turn hk) e

theorem strung_run {c : Crew σ α} (h : c.Strung) (es : List (Event σ α)) : (c.run es).Strung :=
  run_keeps strung_step h es

theorem Strung.advances {c : Crew σ α} (h : c.Strung) (e : Event σ α) : c.chain.Advances (c.step e).chain := by
  have still : c.chain.Advances c.chain := (SameLinks.refl c.chain).advances (.inl rfl) (.inl rfl)
  refine step_keeps (P := fun d => c.chain.Advances d.chain) still (fun _ _ _ => still) ?_ e
  intro k v hk
  exact ((h.placed v (List.mem_of_getElem? hk)).proceeds h.chain).advances

/-- What head and tail have passed and what is retired stays so. -/
theorem Strung.later {c : Crew σ α} (h : c.Strung) (es : List (Event σ α)) :
    c.chain.head ≤ (c.run es).chain.head ∧ c.chain.tail ≤ (c.run es).chain.tail ∧
      c.chain.nodes.size ≤ (c.run es).chain.nodes.size ∧
      ∀ i < c.chain.nodes.size, ((c.chain.node i).retired = true → ((c.run es).chain.node i).retired = true) ∧
        ((c.chain.node i).next ≠ none → ((c.run es).chain.node i).next = (c.chain.node i).next) := by
  induction es generalizing c with
  | nil => exact ⟨Nat.le_refl _, Nat.le_refl _, Nat.le_refl _, fun i _ => ⟨id, fun _ => rfl⟩⟩
  | cons e es ih =>
    have ha := h.advances e
    obtain ⟨hh, ht, hs, hn⟩ := ih (strung_step c e h)
    have hsize := ha.size
    have hhead := ha.head
    have htail := ha.tail
    rw [run_cons]
    refine ⟨by omega, by omega, by omega, ?_⟩
    intro i hi
    obtain ⟨hr, hl⟩ := hn i (by omega)
    refine ⟨fun hr' => hr (ha.retired i hi hr'), ?_⟩
    intro hne
    rcases ha.next i hi with hsame | ⟨hnone, -⟩
    · rw [hl (hsame ▸ hne), hsame]
    · exact absurd hnone hne

/-- Head and tail of a chain and what is linked, retired and at work between them. -/
structure InLine (c : Crew σ α) : Prop where
  /-- Nodes have their numbers from the order in which they were linked, and each is linked to the next. -/
  numbered : c.sent.map (·.2.1) = List.range' 1 (c.chain.nodes.size - 1)
  linked : c.chain.Linked
  /-- The tail is the last node or the one before. -/
  tail : c.chain.tail < c.chain.nodes.size ∧ c.chain.nodes.size ≤ c.chain.tail + 2
  head : c.chain.head < c.chain.nodes.size ∧ c.chain.head ≤ c.chain.tail + 1
  /-- The head has gone from node to node. -/
  moved : c.passes.map (·.2) = List.range' 1 c.chain.head
  /-- If the head has overtaken the tail, the pop whose move it was, and no other's, is still to see to the tail. -/
  overtaken : c.chain.head = c.chain.tail + 1 → ∃ k v, c.threads[k]? = some (some v) ∧ v.SeesTo c.chain ∧
    ∀ j, (j, c.chain.head) ∈ c.passes ↔ j = k
  /-- At each event head and tail move by one node at most, forward, and a link is written only where none is. -/
  advances : ∀ e, c.chain.Advances (c.step e).chain
  /-- A link that is there is there for good. -/
  written : ∀ es, ∀ i < c.chain.nodes.size, (c.chain.node i).next ≠ none →
    ((c.run es).chain.node i).next = (c.chain.node i).next
  /-- Who retires a node has head and tail past it, for good. -/
  retiring : ∀ k h n : Nat, c.threads[k]? = some (some (.pop (.retire h n))) → ∀ es,
    h < (c.run es).chain.head ∧ h < (c.run es).chain.tail
  /-- So neither ever points to a retired node. -/
  retired : ∀ i < c.chain.nodes.size, (c.chain.node i).retired = true → ∀ es,
    ((c.run es).chain.node i).retired = true ∧ i < (c.run es).chain.head ∧ i < (c.run es).chain.tail
  /-- Where nobody is in a call, the tail is the last node. -/
  resting : (∀ v ∈ c.threads, v = none) → c.chain.tail + 1 = c.chain.nodes.size

/-- A move of the head onto a node is made once. -/
theorem Strung.pass_unique {c : Crew σ α} (h : c.Strung) {j k n : Nat} (hj : (j, n) ∈ c.passes)
    (hk : (k, n) ∈ c.passes) : j = k := by
  have hnodup : (c.passes.map (·.2)).Nodup := h.passes ▸ List.nodup_range'
  exact congrArg Prod.fst (List.inj_on_of_nodup_map hnodup hj hk rfl)

theorem Strung.inLine {c : Crew σ α} (h : c.Strung) : c.InLine := by
  have hc := h.chain
  refine ⟨h.sent, hc.next, ⟨hc.tail, hc.near⟩, ⟨hc.head, hc.ahead⟩, h.passes, ?_, h.advances, ?_, ?_, ?_, ?_⟩
  · intro ho
    obtain ⟨v, hv, hs⟩ := h.overtaken ho
    obtain ⟨k, hk⟩ := List.mem_iff_getElem?.mp hv
    have honto : v.onto = some c.chain.head := by rcases hs with rfl | rfl <;> rfl
    have hpass : (k, c.chain.head) ∈ c.passes := mem_logged.mpr ⟨_, h.tracked.onto k v _ hk honto, rfl⟩
    refine ⟨k, v, hk, hs, ?_⟩
    intro j
    exact ⟨fun hj => h.pass_unique hj hpass, fun hj => hj ▸ hpass⟩
  · intro es i hi
    exact ((h.later es).2.2.2 i hi).2
  · intro k i n hk es
    obtain ⟨hhead, htail, -, -⟩ := h.later es
    obtain ⟨rfl, hn, hn'⟩ := h.placed _ (List.mem_of_getElem? hk)
    omega
  · intro i hi hr es
    obtain ⟨-, -, hsize, hlater⟩ := h.later es
    have hr' := (hlater i hi).1 hr
    exact ⟨hr', (strung_run h es).chain.retired i (by omega) hr'⟩
  · intro hidle
    have hnear := hc.near
    have htail := hc.tail
    by_cases hl : c.chain.tail + 1 < c.chain.nodes.size
    · obtain ⟨v, hv, -⟩ := h.lagging hl
      cases hidle _ hv
    · omega

end Crew

/-- However many threads and whatever they do, one access at a time: head and tail stay in line. -/
theorem chain_in_line (n : Nat) (es : List (Crew.Event σ α)) : ((Crew.start n).run es).InLine :=
  (Crew.strung_run (Crew.strung_start n) es).inLine

end BusyWait
