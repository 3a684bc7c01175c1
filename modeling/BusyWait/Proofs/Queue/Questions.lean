import BusyWait.Proofs.Queue.Walks
import BusyWait.Queue.Job

/-
  BusyWait.Proofs.Queue.Questions — walks whose question has no state and does not break off.

  A search finds what `any` finds. A removal without limit leaves what `filter` leaves of
  the elements, one of a single element what `eraseP` does.
-/

namespace BusyWait

variable {σ α : Type}

open Chain Job

/-! ## On a list of elements -/

theorem along_find (p : α → Bool) (last : Nat) (l : List (Nat × α)) (s : σ) (n : Nat) :
    ∃ k, Walk.along (.find (plain p)) last l s n = ([], ⟨k, s, .found (l.any fun x => p x.2)⟩) := by
  induction l with
  | nil => exact ⟨last, rfl⟩
  | cons x l ih =>
    obtain ⟨k, hk⟩ := ih
    obtain ⟨j, a⟩ := x
    cases hp : p a with
    | true => exact ⟨j, by simp [Walk.along, Walk.see, plain, hp]⟩
    | false => exact ⟨k, by simp [Walk.along, Walk.see, plain, hp, hk]⟩

theorem along_removeAll (p : α → Bool) (last : Nat) (l : List (Nat × α)) (s : σ) (n : Nat) :
    Walk.along (.remove (plain p) none) last l s n =
      ((l.filter fun x => p x.2).map (·.1), ⟨last, s, .removed (n + l.countP fun x => p x.2)⟩) := by
  induction l generalizing n with
  | nil => rfl
  | cons x l ih =>
    obtain ⟨j, a⟩ := x
    cases hp : p a with
    | true => simp [Walk.along, Walk.see, plain, hp, ih, Walk.sated, Nat.add_assoc, Nat.add_comm 1]
    | false => simp [Walk.along, Walk.see, plain, hp, ih]

theorem along_removeOne (p : α → Bool) (last : Nat) (l : List (Nat × α)) (s : σ) : ∃ k,
    Walk.along (.remove (plain p) (some 1)) last l s 0 =
      ((l.find? fun x => p x.2).toList.map (·.1), ⟨k, s, .removed (l.any fun x => p x.2).toNat⟩) := by
  induction l with
  | nil => exact ⟨last, rfl⟩
  | cons x l ih =>
    obtain ⟨k, hk⟩ := ih
    obtain ⟨j, a⟩ := x
    cases hp : p a with
    | true => exact ⟨j, by simp [Walk.along, Walk.see, plain, hp, Walk.sated]⟩
    | false => exact ⟨k, by simp [Walk.along, Walk.see, plain, hp, hk]⟩

/-- Without the node of the first element of which the answer is yes. -/
theorem filter_find {l : List (Nat × α)} (hl : l.Pairwise (·.1 < ·.1)) (q : Nat × α → Bool) :
    (l.filter fun x => !((l.find? q).toList.map (·.1)).contains x.1) = l.eraseP q := by
  induction l with
  | nil => rfl
  | cons x l ih =>
    obtain ⟨hx, hl⟩ := List.pairwise_cons.mp hl
    cases hq : q x with
    | true =>
      rw [List.eraseP_cons_of_pos hq, List.find?_cons_of_pos hq, List.filter_cons_of_neg (by simp),
        List.filter_eq_self.mpr]
      intro y hy
      have := hx y hy
      simp
      omega
    | false =>
      have hq' : ¬q x = true := by simp [hq]
      rw [List.eraseP_cons_of_neg hq', List.find?_cons_of_neg hq', List.filter_cons_of_pos, ih hl]
      cases hf : l.find? q with
      | none => rfl
      | some y =>
        have := hx y (List.mem_of_find?_eq_some hf)
        simp
        omega

/-! ## On a quiet chain -/

section
variable {c : Chain α} (h : c.Quiet) (p : α → Bool)

include h

omit p in
theorem whole_copy (s : σ) : ∃ k, Walk.whole .copy c s = ([], ⟨k, s, .copied c.toList.head?⟩) := by
  rw [h.toList_eq, List.head?_map]
  exact ⟨_, Walk.along_copy (c.nodes.size - 1) c.live s 0⟩

theorem any_toList : (c.live.any fun x => p x.2) = c.toList.any p := by
  rw [h.toList_eq, List.any_map]
  rfl

theorem whole_find (s : σ) : ∃ k, Walk.whole (.find (plain p)) c s = ([], ⟨k, s, .found (c.toList.any p)⟩) := by
  rw [← any_toList h]
  exact along_find p _ c.live s 0

/-- What is removed without limit. -/
theorem whole_removeAll (s : σ) : ∃ js k n, Walk.whole (.remove (plain p) none) c s = (js, ⟨k, s, .removed n⟩) ∧
    decide (0 < n) = c.toList.any p ∧ (c.scrapAll js).toList = c.toList.filter fun a => !p a := by
  refine ⟨_, _, _, along_removeAll p _ c.live s 0, ?_, ?_⟩
  · rw [← any_toList h, Bool.eq_iff_iff]
    simp [List.countP_pos_iff]
  · have hids : ∀ x ∈ c.live, ((c.live.filter fun x => p x.2).map (·.1)).contains x.1 = p x.2 := by
      rintro ⟨j, a⟩ hj
      rw [Bool.eq_iff_iff, List.contains_iff_mem, List.mem_map]
      constructor
      · rintro ⟨⟨k, b⟩, hk, rfl⟩
        obtain ⟨hm, hb⟩ := List.mem_filter.mp hk
        have hab := (mem_liveFrom.mp hm).2.symm.trans (mem_liveFrom.mp hj).2
        cases hab
        exact hb
      · exact fun ha => ⟨(j, a), List.mem_filter.mpr ⟨hj, ha⟩, rfl⟩
    rw [(quiet_scrapAll h _).toList_eq, live_scrapAll, h.toList_eq, List.filter_map]
    refine congrArg _ (List.filter_congr ?_)
    intro x hx
    rw [hids x hx]
    rfl

/-- What is removed where one element is to go. -/
theorem whole_removeOne (s : σ) : ∃ js k, Walk.whole (.remove (plain p) (some 1)) c s =
    (js, ⟨k, s, .removed (c.toList.any p).toNat⟩) ∧ (c.scrapAll js).toList = c.toList.eraseP p := by
  obtain ⟨k, hk⟩ := along_removeOne p (c.nodes.size - 1) c.live s
  rw [any_toList h] at hk
  refine ⟨_, k, hk, ?_⟩
  rw [(quiet_scrapAll h _).toList_eq, live_scrapAll, h.toList_eq, List.eraseP_map]
  exact congrArg _ (filter_find (pairwise_liveFrom c c.head) _)

end

end BusyWait
