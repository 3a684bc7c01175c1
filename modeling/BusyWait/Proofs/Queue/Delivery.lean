import BusyWait.Proofs.Queue.Custody
import Mathlib.Data.List.Sort

/-
  BusyWait.Proofs.Queue.Delivery — what is put in is handed over exactly once, and in order.

  From the balance of each node (`Custody`) and from the log, whose moves of the head and
  whose links go from node to node (`Strung`): what pops give out, in the order in which
  the head was moved for it, has ascending nodes, and so is a part of what was put in, in
  the order in which it was linked (`delivered_sublist`).

  `queue_delivers`: after every run, of however many threads, all that `Delivers` lists.
-/

namespace BusyWait

variable {σ α : Type}

open Chain

namespace Crew

/-- What pops have given out, in the order of their moves of the head. -/
def delivered (c : Crew σ α) : List (Nat × Nat × α) :=
  c.passes.flatMap fun x => c.returned.filter fun y => y.1 == x.1 && y.2.1 == x.2

/-- What thread `j` has put in, in order. -/
def sentBy (c : Crew σ α) (j : Nat) : List (Nat × α) := (c.sent.filter (·.1 == j)).map (·.2)

/-! ## Order -/

/-- By ascending nodes. -/
def Ascending (l : List (Nat × α)) : Prop := l.Pairwise fun x y => x.1 < y.1

theorem Ascending.nodup {l : List (Nat × α)} (h : Ascending l) : l.Nodup := by
  rw [List.nodup_iff_pairwise_ne]
  refine h.imp ?_
  intro x y hxy hne
  rw [hne] at hxy
  exact Nat.lt_irrefl _ hxy

/-- What ascends and is found in a list that ascends is a part of it. -/
theorem Ascending.sublist {l l' : List (Nat × α)} (h : Ascending l) (h' : Ascending l') (hs : l ⊆ l') :
    l.Sublist l' := by
  have hanti : Std.Antisymm fun x y : Nat × α => x.1 < y.1 := ⟨fun x y hxy hyx => absurd hxy (Nat.lt_asymm hyx)⟩
  exact List.sublist_of_subperm_of_pairwise (List.subperm_of_subset h.nodup hs) h h'

theorem ascending_of_map {l : List (Nat × Nat × α)} {s n : Nat} (h : l.map (·.2.1) = List.range' s n) :
    Ascending (l.map (·.2)) := by
  have hr : (l.map (·.2.1)).Pairwise (· < ·) := h ▸ List.pairwise_lt_range'
  unfold Ascending
  rw [List.pairwise_map] at hr ⊢
  exact hr

section
variable {c : Crew σ α}

theorem mem_returned {i n : Nat} {a : α} : (i, n, a) ∈ c.returned ↔ (i, .returned n a) ∈ c.log := by
  unfold returned
  rw [mem_logged]
  constructor
  · intro h
    obtain ⟨d, hd, hl⟩ := h
    cases d <;> cases hl
    exact hd
  · intro h
    exact ⟨_, h, rfl⟩

theorem mem_passes {i n : Nat} : (i, n) ∈ c.passes ↔ (i, .passed n) ∈ c.log := by
  unfold passes
  rw [mem_logged]
  constructor
  · intro h
    obtain ⟨d, hd, hl⟩ := h
    cases d <;> cases hl
    exact hd
  · intro h
    exact ⟨_, h, rfl⟩

/-- What is logged as given out is counted at its node. -/
theorem count_returned (n : Nat) : (c.returned.map (·.2.1)).count n = c.deeds (Deed.returns n) := by
  unfold returned logged deeds
  induction c.log with
  | nil => rfl
  | cons x l ih =>
    obtain ⟨k, d⟩ := x
    cases d with
    | returned m a =>
      by_cases hm : m = n <;> simp_all [Deed.return?, Deed.returns]
    | linked m a => simpa [Deed.return?, Deed.returns] using ih
    | passed m => simpa [Deed.return?, Deed.returns] using ih
    | claimed m => simpa [Deed.return?, Deed.returns] using ih
    | dropped m => simpa [Deed.return?, Deed.returns] using ih

end

section
variable {c : Crew σ α}

/-- No element is given out twice. -/
theorem Custody.returns_le (h : c.Custody) (n : Nat) : c.deeds (Deed.returns n) ≤ 1 := by
  have hb := (h.kept n).balance
  have hle := Bool.toNat_le (c.item n).isSome
  simp only [stand] at hb
  omega

theorem Custody.nodup_returned (h : c.Custody) : (c.returned.map (·.2.1)).Nodup := by
  rw [List.nodup_iff_count_le_one]
  intro n
  rw [count_returned]
  exact h.returns_le n

theorem mem_delivered (h : c.Custody) {y : Nat × Nat × α} : y ∈ c.delivered ↔ y ∈ c.returned := by
  obtain ⟨k, n, a⟩ := y
  unfold delivered
  rw [List.mem_flatMap]
  constructor
  · intro hy
    obtain ⟨x, -, hx⟩ := hy
    exact (List.mem_filter.mp hx).1
  · intro hy
    have hpass := h.strung.tracked.returned k n a (mem_returned.mp hy)
    refine ⟨(k, n), mem_passes.mpr hpass, List.mem_filter.mpr ⟨hy, ?_⟩⟩
    simp

/-- What is given out has ascending nodes, if it is taken in the order of the moves of the head. -/
theorem Custody.delivered_ascending (h : c.Custody) : Ascending (c.delivered.map (·.2)) := by
  unfold Ascending delivered
  rw [List.pairwise_map, List.pairwise_flatMap]
  constructor
  · intro x _
    -- what a pop has got out of one node is one element at most
    have hne : (c.returned.filter fun y => y.1 == x.1 && y.2.1 == x.2).Pairwise fun y z => y.2.1 ≠ z.2.1 :=
      (List.pairwise_map.mp h.nodup_returned).sublist List.filter_sublist
    refine hne.imp_of_mem ?_
    intro y z hy hz hyz
    have hy' := (List.mem_filter.mp hy).2
    have hz' := (List.mem_filter.mp hz).2
    simp only [Bool.and_eq_true, beq_iff_eq] at hy' hz'
    exact absurd (hy'.2.trans hz'.2.symm) hyz
  · have hr : (c.passes.map (·.2)).Pairwise (· < ·) := h.strung.passes ▸ List.pairwise_lt_range'
    refine (List.pairwise_map.mp hr).imp ?_
    intro x x' hlt y hy z hz
    have hy' := (List.mem_filter.mp hy).2
    have hz' := (List.mem_filter.mp hz).2
    simp only [Bool.and_eq_true, beq_iff_eq] at hy' hz'
    rw [hy'.2, hz'.2]
    exact hlt

/-- And all of it is what was put in. -/
theorem Custody.delivered_sublist (h : c.Custody) : (c.delivered.map (·.2)).Sublist (c.sent.map (·.2)) := by
  refine h.delivered_ascending.sublist (ascending_of_map h.strung.sent) ?_
  intro x hx
  obtain ⟨⟨k, n, a⟩, hy, rfl⟩ := List.mem_map.mp hx
  obtain ⟨i, hi⟩ := h.strung.item_eq_some.mp (h.genuine k n a (mem_returned.mp ((mem_delivered h).mp hy)))
  exact List.mem_map.mpr ⟨_, hi, rfl⟩

theorem Custody.delivered_perm (h : c.Custody) : c.delivered.Perm c.returned := by
  have hnodup : c.delivered.Nodup := h.delivered_ascending.nodup.of_map
  rw [List.perm_ext_iff_of_nodup hnodup h.nodup_returned.of_map]
  intro y
  exact mem_delivered h

end

/-- What a thread has put in is told by its nodes. -/
theorem Strung.sentBy_eq_filter {c : Crew σ α} (h : c.Strung) (j : Nat) :
    c.sentBy j = (c.sent.map (·.2)).filter fun x => ((c.sentBy j).map (·.1)).contains x.1 := by
  have hnodup : (c.sent.map (·.2.1)).Nodup := h.sent ▸ List.nodup_range'
  conv_lhs => unfold sentBy
  rw [List.filter_map]
  refine congrArg (List.map fun x : Nat × Nat × α => x.2) (List.filter_congr ?_)
  intro x hx
  rw [Bool.eq_iff_iff, beq_iff_eq, Function.comp_apply, List.contains_iff_mem, List.mem_map]
  constructor
  · intro hj
    exact ⟨x.2, List.mem_map.mpr ⟨x, List.mem_filter.mpr ⟨hx, beq_iff_eq.mpr hj⟩, rfl⟩, rfl⟩
  · intro hn
    obtain ⟨_, hmem, hyx⟩ := hn
    obtain ⟨y, hfilter, rfl⟩ := List.mem_map.mp hmem
    obtain ⟨hy, hj⟩ := List.mem_filter.mp hfilter
    obtain rfl : y = x := List.inj_on_of_nodup_map hnodup hy hx hyx
    exact beq_iff_eq.mp hj

/-! ## All together -/

/-- How elements are handed over. -/
structure Delivers (c : Crew σ α) : Prop where
  /-- At most one claim of a node is ever through. -/
  once : ∀ n, c.deeds (Deed.claims n) ≤ 1
  /-- From then on nobody is inside the node, or ever enters it again. -/
  closed : ∀ k n, (k, .claimed n) ∈ c.log → ∀ es, ∀ v, some v ∈ (c.run es).threads → v.role? ≠ some (.looking, n)
  /-- Who looks at an element, or is to move it out or to drop it, finds it in its slot. -/
  present : ∀ v n, some v ∈ c.threads → v.role? = some (.looking, n) ∨ v.role? = some (.holding, n) →
    ∃ i a, (i, n, a) ∈ c.sent ∧ (c.chain.node n).slot = .holds a
  /-- All that pops have given out, in the order of their moves of the head, is a part of what was put in, in the
      order in which it was linked. -/
  all : c.delivered.Perm c.returned
  order : (c.delivered.map (·.2)).Sublist (c.sent.map (·.2))
  /-- So what one thread has put in leaves in the order in which it did so. -/
  fifo : ∀ j, ((c.delivered.map (·.2)).filter fun x => ((c.sentBy j).map (·.1)).contains x.1).Sublist (c.sentBy j)
  /-- What was put in is unclaimed, or claimed by one call in progress (one whose claim has broken off stays so), or
      was given out or dropped, by one call. -/
  custody : ∀ i n a, (i, n, a) ∈ c.sent → (!(c.chain.node n).claimed).toNat +
    (c.count .draining n + c.count .holding n) + c.deeds (Deed.returns n) + c.deeds (Deed.drops n) = 1
  /-- What is unclaimed is linked behind the head, or one pop has just moved the head onto it. -/
  reachable : ∀ i n a, (i, n, a) ∈ c.sent → (c.chain.node n).claimed = false →
    n ∈ c.chain.linked ∨ c.count .passing n = 1

theorem claims_pos {c : Crew σ α} {k n : Nat} (h : (k, .claimed n) ∈ c.log) : 0 < c.deeds (Deed.claims n) :=
  List.countP_pos_iff.mpr ⟨_, h, decide_eq_true rfl⟩

theorem count_pos_of_mem {c : Crew σ α} {v : Act σ α} {r : Role} {n : Nat} (hv : some v ∈ c.threads)
    (hr : v.role? = some (r, n)) : 0 < c.count r n := by
  obtain ⟨k, hk⟩ := List.mem_iff_getElem?.mp hv
  exact count_pos hk hr

theorem Custody.delivers {c : Crew σ α} (h : c.Custody) : c.Delivers := by
  refine ⟨?_, ?_, ?_, h.delivered_perm, h.delivered_sublist, ?_, ?_, ?_⟩
  · intro n
    have hb := (h.kept n).balance
    have hc := (h.kept n).claims
    have hle := Bool.toNat_le (c.item n).isSome
    simp only [stand] at hb hc
    omega
  · intro k n hk es v hv hr
    have hlate := custody_run h es
    have hpos : 0 < (c.run es).deeds (Deed.claims n) := claims_pos ((log_run c es).subset hk)
    have hnone : (c.run es).count .looking n = 0 := (hlate.kept n).closed hpos
    have := count_pos_of_mem hv hr
    omega
  · intro v n hv hr
    have hheld : ∃ a, c.item n = some a ∧ (c.chain.node n).slot = .holds a := by
      rcases hr with hr | hr
      · exact (h.kept n).holds_of_looking (count_pos_of_mem hv hr)
      · exact (h.kept n).holds_of_holding (count_pos_of_mem hv hr)
    obtain ⟨a, ha, hs⟩ := hheld
    obtain ⟨i, hi⟩ := h.strung.item_eq_some.mp ha
    exact ⟨i, a, hi, hs⟩
  · intro j
    have hf := h.delivered_sublist.filter fun x => ((c.sentBy j).map (·.1)).contains x.1
    rwa [← h.strung.sentBy_eq_filter j] at hf
  · intro i n a hi
    have hb := (h.kept n).balance
    have hsome : c.item n = some a := h.strung.item_eq_some.mpr ⟨i, hi⟩
    simp only [stand, hsome] at hb
    simp only [Node.claimed, Option.isSome_some, Bool.toNat_true] at hb ⊢
    omega
  · intro i n a hi hc
    have hp := (h.kept n).passing
    have hn := (h.kept n).pending hc
    simp only [stand] at hp hn
    by_cases hh : c.chain.head < n
    · left
      have hsize : (c.item n).isSome = true := by
        rw [h.strung.item_eq_some.mpr ⟨i, hi⟩]
        rfl
      have hlt := (h.strung.item_isSome.mp hsize).2
      unfold linked
      rw [h.strung.chain.next.follow h.strung.chain.head (by omega), List.mem_range'_1]
      omega
    · right
      rw [decide_eq_false hh] at hp hn
      simp only [Bool.toNat_false] at hp hn
      omega

end Crew

end BusyWait
