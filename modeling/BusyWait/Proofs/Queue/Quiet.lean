import BusyWait.Queue.Push
import Mathlib.Data.List.Basic

/-
  BusyWait.Proofs.Queue.Quiet — a chain that nobody is at work on.

  Every node is linked to the one after it, the tail is the last, and an element is there
  just where the word is free; up to the head none is (`Quiet`). What the chain stores is
  then its elements after the head, each with the number of its node (`live`), and that
  is what `toList`, `length` and `isEmpty` find (`Quiet.toList_eq`, ...).

  - `quiet_pushed`, `quiet_scrap`: a chain stays quiet where an element is put at its end,
    and where one is removed.
  - `Later`: an element that is gone does not come back, and no node changes its element.
-/

namespace BusyWait.Chain

variable {α : Type}

/-- The element in node `i`, if it is neither moved out nor dropped. -/
def elem (c : Chain α) (i : Nat) : Option α := (c.node i).slot.element?

/-- The elements after node `i`, with their nodes. -/
def liveFrom (c : Chain α) (i : Nat) : List (Nat × α) :=
  (List.range' (i + 1) (c.nodes.size - (i + 1))).filterMap fun j => (c.elem j).map (j, ·)

def live (c : Chain α) : List (Nat × α) := c.liveFrom c.head

structure Quiet (c : Chain α) : Prop where
  next : ∀ i < c.nodes.size, (c.node i).next = if i + 1 < c.nodes.size then some (i + 1) else none
  head : c.head < c.nodes.size
  tail : c.tail + 1 = c.nodes.size
  word : ∀ i < c.nodes.size, (c.node i).word = if (c.elem i).isSome then .free else .owned
  passed : ∀ i ≤ c.head, c.elem i = none

theorem quiet_empty : (empty : Chain α).Quiet := by
  refine ⟨?_, Nat.one_pos, rfl, ?_, ?_⟩
  · intro i hi
    obtain rfl : i = 0 := Nat.lt_one_iff.mp hi
    rfl
  · intro i hi
    obtain rfl : i = 0 := Nat.lt_one_iff.mp hi
    rfl
  · intro i hi
    obtain rfl : i = 0 := Nat.le_zero.mp hi
    rfl

/-! ## One node at a time -/

theorem node_of_le (c : Chain α) {i : Nat} (h : c.nodes.size ≤ i) : c.node i = .sentinel := by
  simp [node, h]

theorem elem_of_le (c : Chain α) {i : Nat} (h : c.nodes.size ≤ i) : c.elem i = none := by
  rw [elem, node_of_le c h]
  rfl

theorem lt_of_elem {c : Chain α} {i : Nat} {a : α} (h : c.elem i = some a) : i < c.nodes.size := by
  by_cases hi : i < c.nodes.size
  · exact hi
  · rw [elem_of_le c (Nat.not_lt.mp hi)] at h
    cases h

theorem slot_of_elem {c : Chain α} {i : Nat} {a : α} (h : c.elem i = some a) : (c.node i).slot = .holds a := by
  rw [elem] at h
  cases hs : (c.node i).slot with
  | holds x =>
    rw [hs] at h
    cases h
    rfl
  | never => rw [hs] at h; cases h
  | moved => rw [hs] at h; cases h
  | dropped => rw [hs] at h; cases h

theorem node_modify_eq (c : Chain α) (i j : Nat) (f : Node α → Node α) :
    (c.modify i f).node j = if i = j ∧ j < c.nodes.size then f (c.node j) else c.node j := by
  by_cases hj : j < c.nodes.size
  · rw [node_modify c i j f hj]
    simp [hj]
  · rw [node_of_le _ (by simpa using hj), node_of_le c (by omega), if_neg (by omega)]

@[simp] theorem size_setWord (c : Chain α) (i : Nat) (w : Word) : (c.setWord i w).nodes.size = c.nodes.size :=
  size_modify ..

@[simp] theorem size_setSlot (c : Chain α) (i : Nat) (s : Slot α) : (c.setSlot i s).nodes.size = c.nodes.size :=
  size_modify ..

@[simp] theorem next_setWord (c : Chain α) (i j : Nat) (w : Word) :
    ((c.setWord i w).node j).next = (c.node j).next := by
  rw [setWord, node_modify_eq]
  split <;> rfl

@[simp] theorem next_setSlot (c : Chain α) (i j : Nat) (s : Slot α) :
    ((c.setSlot i s).node j).next = (c.node j).next := by
  rw [setSlot, node_modify_eq]
  split <;> rfl

@[simp] theorem slot_setWord (c : Chain α) (i j : Nat) (w : Word) :
    ((c.setWord i w).node j).slot = (c.node j).slot := by
  rw [setWord, node_modify_eq]
  split <;> rfl

@[simp] theorem elem_setWord (c : Chain α) (i j : Nat) (w : Word) : (c.setWord i w).elem j = c.elem j := by
  rw [elem, slot_setWord, elem]

@[simp] theorem word_setSlot (c : Chain α) (i j : Nat) (s : Slot α) :
    ((c.setSlot i s).node j).word = (c.node j).word := by
  rw [setSlot, node_modify_eq]
  split <;> rfl

theorem word_setWord (c : Chain α) {i j : Nat} (w : Word) (h : j < c.nodes.size) :
    ((c.setWord i w).node j).word = if i = j then w else (c.node j).word := by
  rw [setWord, node_modify c i j _ h]
  split <;> rfl

/-- A slot that holds nothing takes its node's element away. -/
theorem elem_setSlot (c : Chain α) (i j : Nat) {s : Slot α} (hs : s.element? = none) :
    (c.setSlot i s).elem j = if j = i then none else c.elem j := by
  rw [elem, setSlot, node_modify_eq]
  by_cases e : i = j ∧ j < c.nodes.size
  · rw [if_pos e, if_pos e.1.symm]
    exact hs
  · rw [if_neg e]
    by_cases hj : j = i
    · rw [if_pos hj]
      exact elem_of_le c (by omega)
    · rw [if_neg hj]
      rfl

theorem setWord_setWord (c : Chain α) (i : Nat) (v w : Word) : (c.setWord i v).setWord i w = c.setWord i w := by
  have h : (c.nodes.modify i fun n => { n with word := v }).modify i (fun n => { n with word := w }) =
      c.nodes.modify i fun n => { n with word := w } := by
    ext j hj hj'
    · simp
    · simp only [Array.getElem_modify]
      split <;> rfl
  simp only [setWord, modify, h]

theorem setWord_self (c : Chain α) {i : Nat} {w : Word} (h : (c.node i).word = w) : c.setWord i w = c := by
  obtain ⟨ns, head, tail⟩ := c
  have h' : (ns.modify i fun n => { n with word := w }) = ns := by
    ext j hj hj'
    · simp
    · rw [Array.getElem_modify]
      split
      · rename_i e
        subst e
        obtain rfl : ns[i].word = w := by simpa [node, hj'] using h
        rfl
      · rfl
  simp only [setWord, modify, h']

/-! ## The elements after a node -/

theorem mem_liveFrom {c : Chain α} {i j : Nat} {a : α} : (j, a) ∈ c.liveFrom i ↔ i < j ∧ c.elem j = some a := by
  simp only [liveFrom, List.mem_filterMap, List.mem_range'_1, Option.map_eq_some_iff, Prod.mk.injEq]
  constructor
  · rintro ⟨k, ⟨hk, -⟩, b, hb, rfl, rfl⟩
    exact ⟨hk, hb⟩
  · rintro ⟨hj, ha⟩
    have := lt_of_elem ha
    exact ⟨j, ⟨hj, by omega⟩, a, ha, rfl, rfl⟩

theorem pairwise_liveFrom (c : Chain α) (i : Nat) : (c.liveFrom i).Pairwise (·.1 < ·.1) := by
  refine List.Pairwise.filterMap _ ?_ List.pairwise_lt_range'
  intro j k hjk a ha b hb
  simp only [Option.map_eq_some_iff] at ha hb
  obtain ⟨x, -, rfl⟩ := ha
  obtain ⟨y, -, rfl⟩ := hb
  exact hjk

theorem liveFrom_end {c : Chain α} {i : Nat} (h : c.nodes.size ≤ i + 1) : c.liveFrom i = [] := by
  rw [liveFrom, Nat.sub_eq_zero_of_le h]
  rfl

theorem liveFrom_succ {c : Chain α} {i : Nat} (h : i + 1 < c.nodes.size) :
    c.liveFrom i = ((c.elem (i + 1)).map (i + 1, ·)).toList ++ c.liveFrom (i + 1) := by
  obtain ⟨n, hn⟩ := Nat.exists_eq_add_of_lt h
  rw [liveFrom, liveFrom, show c.nodes.size - (i + 1) = n + 1 by omega, show c.nodes.size - (i + 1 + 1) = n by omega,
    List.range'_succ, List.filterMap_cons]
  cases c.elem (i + 1) <;> rfl

theorem liveFrom_of_none {c : Chain α} {i : Nat} (h : c.elem (i + 1) = none) : c.liveFrom i = c.liveFrom (i + 1) := by
  by_cases hi : i + 1 < c.nodes.size
  · rw [liveFrom_succ hi, h]
    rfl
  · rw [liveFrom_end (by omega), liveFrom_end (by omega)]

theorem liveFrom_of_some {c : Chain α} {i : Nat} {a : α} (h : c.elem (i + 1) = some a) :
    c.liveFrom i = (i + 1, a) :: c.liveFrom (i + 1) := by
  rw [liveFrom_succ (lt_of_elem h), h]
  rfl

/-- Where `p` fails the elements are gone. -/
theorem liveFrom_filter {c c' : Chain α} {i : Nat} {p : Nat → Bool} (hs : c'.nodes.size = c.nodes.size)
    (he : ∀ j, i < j → c'.elem j = if p j then c.elem j else none) :
    c'.liveFrom i = (c.liveFrom i).filter fun x => p x.1 := by
  rw [liveFrom, liveFrom, hs, List.filter_filterMap]
  apply List.filterMap_congr
  intro j hj
  rw [he j (by simp at hj; omega)]
  cases c.elem j with
  | none => simp
  | some a => cases hp : p j <;> simp [Option.filter, hp]

theorem liveFrom_congr {c c' : Chain α} {i : Nat} (hs : c'.nodes.size = c.nodes.size)
    (he : ∀ j, i < j → c'.elem j = c.elem j) : c'.liveFrom i = c.liveFrom i := by
  have h := liveFrom_filter (p := fun _ => true) hs he
  rwa [List.filter_eq_self.mpr fun _ _ => rfl] at h

/-- From a later node on there are the later ones of the same elements. -/
theorem liveFrom_later (c : Chain α) {i k : Nat} (h : i ≤ k) :
    c.liveFrom k = (c.liveFrom i).filter fun x => decide (k < x.1) := by
  obtain ⟨n, rfl⟩ := Nat.exists_eq_add_of_le h
  clear h
  induction n with
  | zero =>
    rw [Nat.add_zero, List.filter_eq_self.mpr]
    rintro ⟨j, a⟩ hj
    simpa using (mem_liveFrom.mp hj).1
  | succ n ih =>
    have hdrop : ∀ x ∈ c.liveFrom (i + n + 1), decide (i + n + 1 < x.1) = true := by
      rintro ⟨j, a⟩ hj
      simpa using (mem_liveFrom.mp hj).1
    have hboth : (c.liveFrom i).filter (fun x => decide (i + n + 1 < x.1)) =
        (c.liveFrom (i + n)).filter fun x => decide (i + n + 1 < x.1) := by
      rw [ih, List.filter_filter]
      apply List.filter_congr
      intro x _
      rw [Bool.eq_iff_iff]
      simp
      omega
    rw [← Nat.add_assoc, hboth]
    cases he : c.elem (i + n + 1) with
    | none => rw [liveFrom_of_none he, List.filter_eq_self.mpr hdrop]
    | some a => rw [liveFrom_of_some he, List.filter_cons_of_neg (by simp), List.filter_eq_self.mpr hdrop]

/-! ## What the chain stores -/

/-- Every node is linked to the one after it. -/
def Linked (c : Chain α) : Prop :=
  ∀ i < c.nodes.size, (c.node i).next = if i + 1 < c.nodes.size then some (i + 1) else none

theorem Linked.follow {c : Chain α} (h : c.Linked) {fuel i : Nat} (hi : i < c.nodes.size)
    (hf : c.nodes.size ≤ fuel + (i + 1)) : c.follow fuel i = List.range' (i + 1) (c.nodes.size - (i + 1)) := by
  induction fuel generalizing i with
  | zero => rw [Nat.sub_eq_zero_of_le (by omega)]; rfl
  | succ fuel ih =>
    rw [Chain.follow, h i hi]
    by_cases hn : i + 1 < c.nodes.size
    · rw [if_pos hn]
      show (i + 1) :: c.follow fuel (i + 1) = _
      rw [ih hn (by omega), show c.nodes.size - (i + 1) = c.nodes.size - (i + 1 + 1) + 1 by omega, List.range'_succ]
    · rw [if_neg hn, Nat.sub_eq_zero_of_le (by omega)]
      rfl

namespace Quiet

variable {c : Chain α}

theorem claimed (h : c.Quiet) {i : Nat} (hi : i < c.nodes.size) : (c.node i).claimed = (c.elem i).isNone := by
  rw [Node.claimed, h.word i hi]
  cases c.elem i with
  | none =>
    show Word.owned.writerPending = true
    decide
  | some a =>
    show Word.free.writerPending = false
    decide

theorem linked (h : c.Quiet) : c.linked = List.range' (c.head + 1) (c.nodes.size - (c.head + 1)) :=
  Linked.follow h.next h.head (by omega)

theorem unclaimed (h : c.Quiet) : c.unclaimed = c.live.map Prod.fst := by
  rw [Chain.unclaimed, h.linked, live, liveFrom, List.map_filterMap, ← List.filterMap_eq_filter]
  apply List.filterMap_congr
  intro j hj
  rw [Option.guard, h.claimed (by simp at hj; omega)]
  cases c.elem j <;> rfl

theorem length_eq (h : c.Quiet) : c.length = c.live.length := by
  rw [Chain.length, h.unclaimed, List.length_map]

theorem toList_eq (h : c.Quiet) : c.toList = c.live.map Prod.snd := by
  rw [Chain.toList, h.unclaimed, List.filterMap_map, ← List.filterMap_eq_map]
  apply List.filterMap_congr
  intro x hx
  obtain ⟨j, a⟩ := x
  exact (mem_liveFrom.mp hx).2

theorem isEmpty_eq (h : c.Quiet) : c.isEmpty = c.live.isEmpty := by
  have hu : c.isEmpty = c.unclaimed.isEmpty := by
    rw [Bool.eq_iff_iff, List.isEmpty_iff, Chain.unclaimed, List.filter_eq_nil_iff]
    simp [Chain.isEmpty]
  rw [hu, h.unclaimed, List.isEmpty_map]

end Quiet

/-! ## One element more, one element less -/

/-- With a new element at the end. -/
def pushed (c : Chain α) (a : α) : Chain α := { c.link c.tail a with tail := c.nodes.size }

/-- With node `i` claimed and its element gone. -/
def scrap (c : Chain α) (i : Nat) (s : Slot α) : Chain α := (c.setWord i .owned).setSlot i s

@[simp] theorem size_pushed (c : Chain α) (a : α) : (c.pushed a).nodes.size = c.nodes.size + 1 := size_link ..

@[simp] theorem size_scrap (c : Chain α) (i : Nat) (s : Slot α) : (c.scrap i s).nodes.size = c.nodes.size := by
  simp [scrap]

@[simp] theorem head_scrap (c : Chain α) (i : Nat) (s : Slot α) : (c.scrap i s).head = c.head := rfl

theorem elem_pushed (c : Chain α) (a : α) (j : Nat) :
    (c.pushed a).elem j = if j = c.nodes.size then some a else c.elem j := by
  by_cases hj : j ≤ c.nodes.size
  · have hn : (c.pushed a).node j = (c.link c.tail a).node j := rfl
    rw [elem, hn, node_link c _ _ _ hj]
    by_cases e : j = c.nodes.size
    · rw [if_pos e, if_pos e]
      rfl
    · rw [if_neg e, if_neg e]
      split <;> rfl
  · rw [elem_of_le _ (by simp; omega), if_neg (by omega), elem_of_le c (by omega)]

theorem elem_scrap (c : Chain α) (i j : Nat) {s : Slot α} (hs : s.element? = none) :
    (c.scrap i s).elem j = if j = i then none else c.elem j := by
  rw [scrap, elem_setSlot _ _ _ hs, elem_setWord]

theorem word_scrap (c : Chain α) (i : Nat) {j : Nat} (s : Slot α) (h : j < c.nodes.size) :
    ((c.scrap i s).node j).word = if i = j then .owned else (c.node j).word := by
  rw [scrap, word_setSlot, word_setWord c _ h]

theorem live_pushed {c : Chain α} (h : c.Quiet) (a : α) : (c.pushed a).live = c.live ++ [(c.nodes.size, a)] := by
  have hs : (c.pushed a).nodes.size - (c.head + 1) = c.nodes.size - (c.head + 1) + 1 := by
    have := h.head
    rw [size_pushed]
    omega
  have hlast : c.head + 1 + (c.nodes.size - (c.head + 1)) = c.nodes.size := by
    have := h.head
    omega
  rw [live, live, liveFrom, liveFrom, show (c.pushed a).head = c.head from rfl, hs, List.range'_1_concat, hlast,
    List.filterMap_append]
  congr 1
  · apply List.filterMap_congr
    intro j hj
    rw [elem_pushed, if_neg (by simp at hj; omega)]
  · simp [elem_pushed]

theorem quiet_pushed {c : Chain α} (h : c.Quiet) (a : α) : (c.pushed a).Quiet := by
  have ht := h.tail
  have hn : ∀ i, i ≤ c.nodes.size → (c.pushed a).node i = (c.link c.tail a).node i := fun _ _ => rfl
  refine ⟨?_, ?_, size_pushed c a ▸ rfl, ?_, ?_⟩
  · intro i hi
    rw [size_pushed] at hi ⊢
    rw [hn i (by omega), node_link c _ _ _ (by omega)]
    by_cases e : i = c.nodes.size
    · rw [if_pos e, if_neg (by omega)]
      rfl
    · rw [if_neg e]
      by_cases et : c.tail = i
      · rw [if_pos et, if_pos (by omega)]
        show some c.nodes.size = some (i + 1)
        rw [← et, ht]
      · rw [if_neg et, h.next i (by omega), if_pos (by omega), if_pos (by omega)]
  · have := h.head
    rw [size_pushed]
    show c.head < _
    omega
  · intro i hi
    rw [size_pushed] at hi
    rw [elem_pushed, hn i (by omega), node_link c _ _ _ (by omega)]
    by_cases e : i = c.nodes.size
    · rw [if_pos e, if_pos e]
      rfl
    · rw [if_neg e, if_neg e, ← h.word i (by omega)]
      split <;> rfl
  · intro i hi
    have hi' : i ≤ c.head := hi
    have := h.head
    rw [elem_pushed, if_neg (by omega), h.passed i hi']

/-- A chain stays quiet under a change that keeps its links and whose words go with its elements. -/
theorem Quiet.change {c c' : Chain α} (h : c.Quiet) (hs : c'.nodes.size = c.nodes.size)
    (hn : ∀ i, (c'.node i).next = (c.node i).next) (ht : c'.tail = c.tail) (hh : c'.head < c.nodes.size)
    (hw : ∀ i < c.nodes.size, (c'.node i).word = if (c'.elem i).isSome then .free else .owned)
    (hp : ∀ i ≤ c'.head, c'.elem i = none) : c'.Quiet := by
  refine ⟨?_, by rw [hs]; exact hh, by rw [ht, hs]; exact h.tail, fun i hi => hw i (hs ▸ hi), hp⟩
  intro i hi
  rw [hs] at hi ⊢
  rw [hn]
  exact h.next i hi

theorem quiet_scrap {c : Chain α} (h : c.Quiet) (i : Nat) {s : Slot α} (hs : s.element? = none) :
    (c.scrap i s).Quiet := by
  refine h.change (size_scrap c i s) (fun j => by simp [scrap]) rfl h.head ?_ ?_
  · intro j hj
    rw [elem_scrap _ _ _ hs, word_scrap _ _ _ hj]
    by_cases e : i = j
    · rw [if_pos e, if_pos e.symm]
      rfl
    · rw [if_neg e, if_neg (Ne.symm e), h.word j hj]
  · intro j hj
    rw [elem_scrap _ _ _ hs, h.passed j hj]
    split <;> rfl

theorem liveFrom_scrap (c : Chain α) (i k : Nat) {s : Slot α} (hs : s.element? = none) :
    (c.scrap i s).liveFrom k = (c.liveFrom k).filter fun x => x.1 != i := by
  refine liveFrom_filter (p := fun j => j != i) (size_scrap c i s) ?_
  intro j _
  rw [elem_scrap _ _ _ hs]
  by_cases e : j = i <;> simp [e]

/-! ## Later chains -/

/-- Nodes were added, the head moved on, elements went; nothing else. -/
structure Later (c c' : Chain α) : Prop where
  size : c.nodes.size ≤ c'.nodes.size
  head : c.head ≤ c'.head
  elem : ∀ i < c.nodes.size, c'.elem i = c.elem i ∨ c'.elem i = none

theorem Later.refl (c : Chain α) : c.Later c := ⟨Nat.le_refl _, Nat.le_refl _, fun _ _ => .inl rfl⟩

theorem Later.trans {a b c : Chain α} (h : a.Later b) (h' : b.Later c) : a.Later c := by
  refine ⟨Nat.le_trans h.size h'.size, Nat.le_trans h.head h'.head, ?_⟩
  intro i hi
  rcases h'.elem i (Nat.lt_of_lt_of_le hi h.size) with e | e
  · rw [e]
    exact h.elem i hi
  · exact .inr e

theorem later_pushed (c : Chain α) (a : α) : c.Later (c.pushed a) := by
  refine ⟨by simp, Nat.le_refl _, fun i hi => .inl ?_⟩
  rw [elem_pushed, if_neg (by omega)]

theorem later_scrap (c : Chain α) (i : Nat) {s : Slot α} (hs : s.element? = none) : c.Later (c.scrap i s) := by
  refine ⟨by simp, Nat.le_refl _, ?_⟩
  intro j _
  rw [elem_scrap _ _ _ hs]
  split
  · exact .inr rfl
  · exact .inl rfl

/-! ## Several elements more -/

def pushAll (c : Chain α) (as : List α) : Chain α := as.foldl pushed c

theorem quiet_pushAll {c : Chain α} (h : c.Quiet) (as : List α) : (c.pushAll as).Quiet := by
  induction as generalizing c with
  | nil => exact h
  | cons a as ih => exact ih (quiet_pushed h a)

theorem later_pushAll (c : Chain α) (as : List α) : c.Later (c.pushAll as) := by
  induction as generalizing c with
  | nil => exact .refl c
  | cons a as ih => exact (later_pushed c a).trans (ih _)

theorem toList_pushAll {c : Chain α} (h : c.Quiet) (as : List α) : (c.pushAll as).toList = c.toList ++ as := by
  induction as generalizing c with
  | nil => simp [pushAll]
  | cons a as ih =>
    show ((c.pushed a).pushAll as).toList = _
    rw [ih (quiet_pushed h a), (quiet_pushed h a).toList_eq, live_pushed h, h.toList_eq]
    simp

end BusyWait.Chain
