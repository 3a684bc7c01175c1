import BusyWait.Proofs.Queue.Quiet
import BusyWait.Proofs.Solo
import BusyWait.Queue.Walk

/-
  BusyWait.Proofs.Queue.Walks — what a walk does to a quiet chain.

  A walk looks at the elements ahead of it, each once, first first, and at nothing else:
  `along` is what it makes of their list. A walk that removes leaves the chain without the
  nodes it has removed (`scrapAll`), any other leaves it as it is.

  - `walk_reaches`: from node to node; the accesses are counted by the nodes passed.
-/

namespace BusyWait

variable {σ α : Type}

namespace Walk

/-- What a walk makes of the elements ahead of it: the nodes it removes, and its end. Where it
    has seen them all it is at `last`. -/
def along (aim : Aim σ α) (last : Nat) : List (Nat × α) → σ → Nat → List Nat × Walked σ α
  | [], s, n => ([], (⟨.seek, last, s, n⟩ : Walk σ α).finish ((⟨.seek, last, s, n⟩ : Walk σ α).atEnd aim))
  | (j, a) :: l, s, n =>
    match (⟨.inside, j, s, n⟩ : Walk σ α).see a aim with
    | (s, .copied a) => ([], ⟨j, s, .copied (some a)⟩)
    | (s, .broke f) => ([], ⟨j, s, .broke f⟩)
    | (s, .answered false) => along aim last l s n
    | (s, .answered true) =>
      match aim with
      | .remove _ _ =>
        if (⟨.seek, j, s, n + 1⟩ : Walk σ α).sated aim then ([j], ⟨j, s, .removed (n + 1)⟩)
        else (j :: (along aim last l s (n + 1)).1, (along aim last l s (n + 1)).2)
      | _ => ([], ⟨j, s, .found true⟩)

/-- A walk ends at a node that it has looked into, or at the last. -/
theorem cursor_along (aim : Aim σ α) (last : Nat) (l : List (Nat × α)) (s : σ) (n : Nat) :
    (along aim last l s n).2.cursor = last ∨ ∃ x ∈ l, (along aim last l s n).2.cursor = x.1 := by
  induction l generalizing s n with
  | nil => exact .inl rfl
  | cons x l ih =>
    have here : ∀ k, k = x.1 → k = last ∨ ∃ y ∈ x :: l, k = y.1 := fun k hk => .inr ⟨x, List.mem_cons_self, hk⟩
    have later : ∀ k, (k = last ∨ ∃ y ∈ l, k = y.1) → k = last ∨ ∃ y ∈ x :: l, k = y.1 := by
      rintro k (hk | ⟨y, hy, hk⟩)
      · exact .inl hk
      · exact .inr ⟨y, List.mem_cons_of_mem _ hy, hk⟩
    rw [along]
    split
    · exact here _ rfl
    · exact here _ rfl
    · exact later _ (ih _ _)
    · split
      · split
        · exact here _ rfl
        · exact later _ (ih _ _)
      · exact here _ rfl

/-- A walk does not end before the nodes it has passed. -/
theorem le_along (aim : Aim σ α) {last k : Nat} {l : List (Nat × α)} (hl : ∀ x ∈ l, k ≤ x.1) (hk : k ≤ last) (s : σ)
    (n : Nat) : k ≤ (along aim last l s n).2.cursor := by
  rcases cursor_along aim last l s n with e | ⟨x, hx, e⟩
  · rw [e]
    exact hk
  · rw [e]
    exact hl x hx

/-- A walk does not end after the last node. -/
theorem along_le (aim : Aim σ α) {last : Nat} {l : List (Nat × α)} (hl : ∀ x ∈ l, x.1 ≤ last) (s : σ) (n : Nat) :
    (along aim last l s n).2.cursor ≤ last := by
  rcases cursor_along aim last l s n with e | ⟨x, hx, e⟩
  · exact Nat.le_of_eq e
  · rw [e]
    exact hl x hx

theorem along_copy (last : Nat) (l : List (Nat × α)) (s : σ) (n : Nat) :
    along .copy last l s n = ([], ⟨((l.head?).map (·.1)).getD last, s, .copied ((l.head?).map (·.2))⟩) := by
  cases l <;> rfl

end Walk

namespace Chain

/-- With these nodes claimed and their elements dropped. -/
def scrapAll (c : Chain α) (js : List Nat) : Chain α := js.foldl (fun c j => c.scrap j .dropped) c

@[simp] theorem scrapAll_nil (c : Chain α) : c.scrapAll [] = c := rfl

@[simp] theorem scrapAll_cons (c : Chain α) (j : Nat) (js : List Nat) :
    c.scrapAll (j :: js) = (c.scrap j .dropped).scrapAll js := rfl

theorem quiet_scrapAll {c : Chain α} (h : c.Quiet) (js : List Nat) : (c.scrapAll js).Quiet := by
  induction js generalizing c with
  | nil => exact h
  | cons j js ih => exact ih (quiet_scrap h j rfl)

theorem later_scrapAll (c : Chain α) (js : List Nat) : c.Later (c.scrapAll js) := by
  induction js generalizing c with
  | nil => exact .refl c
  | cons j js ih => exact (later_scrap c j rfl).trans (ih _)

theorem live_scrapAll (c : Chain α) (js : List Nat) :
    (c.scrapAll js).live = c.live.filter fun x => !js.contains x.1 := by
  induction js generalizing c with
  | nil => simp
  | cons j js ih =>
    rw [scrapAll_cons, ih, live, head_scrap, liveFrom_scrap _ _ _ rfl, List.filter_filter]
    apply List.filter_congr
    intro x _
    rw [List.contains_cons, Bool.not_or, Bool.and_comm]
    rfl

theorem liveFrom_le_last {c : Chain α} {i : Nat} : ∀ x ∈ c.liveFrom i, x.1 ≤ max i (c.nodes.size - 1) := by
  rintro ⟨j, a⟩ hj
  have := lt_of_elem (mem_liveFrom.mp hj).2
  simp only
  omega

/-- What is scrapped up to a node does not concern what comes after it. -/
theorem liveFrom_scrap_self (c : Chain α) (i : Nat) : (c.scrap i .dropped).liveFrom i = c.liveFrom i := by
  rw [liveFrom_scrap _ _ _ rfl, List.filter_eq_self.mpr]
  rintro ⟨j, a⟩ hj
  have := (mem_liveFrom.mp hj).1
  simp
  omega

end Chain

open Chain

/-! ## One node of a walk -/

section
variable {c : Chain α} {aim : Aim σ α} {i : Nat} {s : σ} {n : Nat}

theorem walk_seeks (aim : Aim σ α) (h : c.Quiet) (hi : i + 1 < c.nodes.size) :
    Reaches (Walk.step aim) Walk.waits 1 c ⟨.seek, i, s, n⟩ (c, .more ⟨.enter .look, i + 1, s, n⟩) := by
  have hnext : (c.node i).next = some (i + 1) := by rw [h.next i (by omega), if_pos hi]
  exact .next rfl (by simp only [Walk.step, hnext]) .here

/-- A node whose element is gone is passed by. -/
theorem walk_passes (h : c.Quiet) (hi : i < c.nodes.size) (he : c.elem i = none) :
    Reaches (Walk.step aim) Walk.waits 1 c ⟨.enter .look, i, s, n⟩ (c, .more ⟨.seek, i, s, n⟩) := by
  have hw : (c.node i).word = .owned := by
    rw [h.word i hi, he]
    rfl
  have hlook : Entry.look.step Word.owned = (Word.owned, .done (.ok false)) := by decide
  refine .next rfl ?_ .here
  simp only [Walk.step, hw, hlook, setWord_self c hw]
  rfl

/-- Into a node with an element, and out again with what was seen there. -/
theorem walk_visits {s' : σ} {seen : Sight α} (h : c.Quiet) {a : α} (he : c.elem i = some a)
    (hsee : (⟨.inside, i, s, n⟩ : Walk σ α).see a aim = (s', seen)) :
    Reaches (Walk.step aim) Walk.waits 4 c ⟨.enter .look, i, s, n⟩
      (c, Walk.afterSight ⟨.leave seen, i, s', n⟩ seen aim) := by
  have hi := lt_of_elem he
  have hw : (c.node i).word = .free := by
    rw [h.word i hi, he]
    rfl
  let d := c.setWord i Word.free.enter
  have hdw : (d.node i).word = Word.free.enter := by rw [word_setWord _ _ hi, if_pos rfl]
  have hds : (d.node i).slot = .holds a := slot_of_elem (by simpa [d] using he)
  have hback : d.setWord i .free = c := by rw [setWord_setWord, setWord_self c hw]
  have hlook : Walk.step aim c ⟨.enter .look, i, s, n⟩ = (c, .more ⟨.enter (.swap .free 0), i, s, n⟩) := by
    have hfree : Entry.look.step Word.free = (Word.free, .more (.swap .free 0)) := by decide
    simp only [Walk.step, hw, hfree, setWord_self c hw]
    rfl
  have hswap : Walk.step aim c ⟨.enter (.swap .free 0), i, s, n⟩ = (d, .more ⟨.inside, i, s, n⟩) := by
    have hfree : (Entry.swap .free 0).step Word.free = (Word.free.enter, .done (.ok true)) := by decide
    simp only [Walk.step, hw, hfree]
    rfl
  have hinside : Walk.step aim d ⟨.inside, i, s, n⟩ = (d, .more ⟨.leave seen, i, s', n⟩) := by
    simp only [Walk.step, hds, hsee]
  have hleave : Walk.step aim d ⟨.leave seen, i, s', n⟩ = (c, Walk.afterSight ⟨.leave seen, i, s', n⟩ seen aim) := by
    have hrelease : Word.free.enter.release = (Word.free, .ok ()) := by decide
    simp only [Walk.step, hdw, hrelease, hback]
  rw [← hleave]
  exact .next rfl hlook (.next rfl hswap (.next rfl hinside (.single rfl)))

/-- Out of the last node. -/
theorem walk_ends (h : c.Quiet) (hi : c.nodes.size ≤ i + 1) :
    Reaches (Walk.step aim) Walk.waits 1 c ⟨.seek, i, s, n⟩
      (c, .done ((⟨.seek, i, s, n⟩ : Walk σ α).finish ((⟨.seek, i, s, n⟩ : Walk σ α).atEnd aim))) := by
  have hnext : (c.node i).next = none := by
    by_cases e : i < c.nodes.size
    · rw [h.next i e, if_neg (by omega)]
    · rw [node_of_le c (by omega)]
      rfl
  exact .last rfl (by simp only [Walk.step, hnext])

/-- An element that is to go is claimed and dropped; nobody looks at it. -/
theorem walk_removes {ask : Ask σ α} {limit : Option Nat} (h : c.Quiet) {a : α} (he : c.elem i = some a) :
    Reaches (Walk.step (.remove ask limit)) Walk.waits 3 c ⟨.claim, i, s, n⟩
      (c.scrap i .dropped, if (⟨.seek, i, s, n + 1⟩ : Walk σ α).sated (.remove ask limit)
        then .done ⟨i, s, .removed (n + 1)⟩ else .more ⟨.seek, i, s, n + 1⟩) := by
  have hi := lt_of_elem he
  have hw : (c.node i).word = .free := by
    rw [h.word i hi, he]
    rfl
  let d := c.setWord i .owned
  have hdw : (d.node i).word = .owned := by rw [word_setWord _ _ hi, if_pos rfl]
  have hds : (d.node i).slot = .holds a := slot_of_elem (by simpa [d] using he)
  have hclaim : Walk.step (.remove ask limit) c ⟨.claim, i, s, n⟩ = (d, .more ⟨.drain ⟨0⟩, i, s, n⟩) := by
    simp only [Walk.step, hw, show Word.free.claim = (Word.owned, true) by decide]
    rfl
  have hdrain : Walk.step (.remove ask limit) d ⟨.drain ⟨0⟩, i, s, n⟩ = (d, .more ⟨.drop, i, s, n⟩) :=
    Walk.step_drain_owned _ _ _ _ hdw
  have hwait : Walk.waits d (⟨.drain ⟨0⟩, i, s, n⟩ : Walk σ α) = false := by simp [Walk.waits, Drain.waits, hdw]
  have hdrop : Walk.step (.remove ask limit) d ⟨.drop, i, s, n⟩ =
      (c.scrap i .dropped, if (⟨.seek, i, s, n + 1⟩ : Walk σ α).sated (.remove ask limit)
        then .done ⟨i, s, .removed (n + 1)⟩ else .more ⟨.seek, i, s, n + 1⟩) := by
    simp only [Walk.step, hds]
    rfl
  rw [← hdrop]
  exact .next rfl hclaim (.next hwait hdrain (.single rfl))

end

/-! ## The whole walk -/

/-- On a quiet chain a walk ends, and with what `along` says. -/
theorem walk_reaches {c : Chain α} (h : c.Quiet) (aim : Aim σ α) (i : Nat) (s : σ) (n : Nat) :
    Reaches (Walk.step aim) Walk.waits
      (8 * ((Walk.along aim (max i (c.nodes.size - 1)) (c.liveFrom i) s n).2.cursor - i) + 1) c ⟨.seek, i, s, n⟩
      (c.scrapAll (Walk.along aim (max i (c.nodes.size - 1)) (c.liveFrom i) s n).1,
        .done (Walk.along aim (max i (c.nodes.size - 1)) (c.liveFrom i) s n).2) := by
  induction hk : c.nodes.size - (i + 1) generalizing c i s n with
  | zero =>
    have hi : c.nodes.size ≤ i + 1 := by omega
    rw [liveFrom_end hi, show max i (c.nodes.size - 1) = i by omega]
    exact (walk_ends h hi).mono (by omega)
  | succ k ih =>
    have hi : i + 1 < c.nodes.size := by omega
    have hlast : max i (c.nodes.size - 1) = max (i + 1) (c.nodes.size - 1) := by omega
    have hfrom : ∀ x ∈ c.liveFrom (i + 1), i + 1 ≤ x.1 := by
      rintro ⟨j, a⟩ hj
      exact Nat.le_of_lt (mem_liveFrom.mp hj).1
    rw [hlast]
    cases he : c.elem (i + 1) with
    | none =>
      have hle := Walk.le_along aim hfrom (Nat.le_max_left _ (c.nodes.size - 1)) s n
      rw [liveFrom_of_none he]
      exact (((walk_seeks aim h hi).trans (walk_passes h hi he)).trans (ih h (i + 1) s n (by omega))).mono (by omega)
    | some a =>
      rcases hsee : (⟨.inside, i + 1, s, n⟩ : Walk σ α).see a aim with ⟨s', seen⟩
      have hvisit := (walk_seeks aim h hi).trans (walk_visits h he hsee)
      rw [liveFrom_of_some he, Walk.along, hsee]
      have stop : ∀ s' o, Reaches (Walk.step aim) Walk.waits 5 c ⟨.seek, i, s, n⟩ (c, .done ⟨i + 1, s', o⟩) →
          Reaches (Walk.step aim) Walk.waits (8 * (i + 1 - i) + 1) c ⟨.seek, i, s, n⟩ (c, .done ⟨i + 1, s', o⟩) :=
        fun _ _ hr => hr.mono (by omega)
      rcases seen with x | b | f
      · exact stop _ _ hvisit
      · cases b with
        | false =>
          have hle := Walk.le_along aim hfrom (Nat.le_max_left _ (c.nodes.size - 1)) s' n
          exact (hvisit.trans (ih h (i + 1) s' n (by omega))).mono (by simp only; omega)
        | true =>
          cases aim with
          | copy => exact stop _ _ hvisit
          | find ask => exact stop _ _ hvisit
          | remove ask limit =>
            have hgone := hvisit.trans (walk_removes h he)
            simp only []
            split
            · rename_i hsat
              rw [if_pos hsat] at hgone
              exact hgone.mono (by simp)
            · rename_i hsat
              rw [if_neg hsat] at hgone
              have hle := Walk.le_along (.remove ask limit) hfrom (Nat.le_max_left _ (c.nodes.size - 1)) s' (n + 1)
              have hrest := ih (quiet_scrap h (i + 1) (s := .dropped) rfl) (i + 1) s' (n + 1) (by simp; omega)
              rw [liveFrom_scrap_self, size_scrap] at hrest
              exact (hgone.trans hrest).mono (by simp only; omega)
      · exact stop _ _ hvisit

/-- What a walk from the head makes of the chain. -/
def Walk.whole (aim : Aim σ α) (c : Chain α) (s : σ) : List Nat × Walked σ α :=
  if (start s : Walk σ α).sated aim then ([], (start s : Walk σ α).finish ((start s : Walk σ α).atEnd aim))
  else along aim (c.nodes.size - 1) c.live s 0

theorem walk_start_reaches {c : Chain α} (h : c.Quiet) (aim : Aim σ α) (s : σ) :
    Reaches (Walk.step aim) Walk.waits (8 * c.nodes.size) c (.start s)
      (c.scrapAll (Walk.whole aim c s).1, .done (Walk.whole aim c s).2) := by
  have hsize := h.head
  rw [Walk.whole]
  cases hsat : (Walk.start s : Walk σ α).sated aim with
  | true =>
    have hread : Walk.step aim c (.start s) =
        (c, .done ((Walk.start s : Walk σ α).finish ((Walk.start s : Walk σ α).atEnd aim))) := by
      show (if (Walk.start s : Walk σ α).sated aim then _ else _) = _
      rw [if_pos hsat]
    exact (Reaches.last (n := 0) rfl hread).mono (by omega)
  | false =>
    have hread : Walk.step aim c (.start s) = (c, .more ⟨.seek, c.head, s, 0⟩) := by
      show (if (Walk.start s : Walk σ α).sated aim then _ else _) = _
      rw [if_neg (by simp [hsat])]
      rfl
    have hlast : max c.head (c.nodes.size - 1) = c.nodes.size - 1 := by omega
    have hle := Walk.along_le aim (liveFrom_le_last (c := c) (i := c.head)) s 0
    have hw := walk_reaches h aim c.head s 0
    rw [hlast] at hle hw
    exact (Reaches.next rfl hread hw).mono (by rw [← live] at hle ⊢; omega)

namespace Chain

/-- Where a copy from node `i` on ends: at the next element, or at the last node. -/
def nextFrom (c : Chain α) (i : Nat) : Nat := (((c.liveFrom i).head?).map (·.1)).getD (max i (c.nodes.size - 1))

theorem nextFrom_le (c : Chain α) (i : Nat) : c.nextFrom i ≤ max i (c.nodes.size - 1) := by
  have hle := liveFrom_le_last (c := c) (i := i)
  rw [nextFrom]
  cases hl : c.liveFrom i with
  | nil => exact Nat.le_refl _
  | cons x l => exact hle x (by rw [hl]; exact List.mem_cons_self)

/-- After an element come those that came after it. -/
theorem liveFrom_nextFrom (c : Chain α) (i : Nat) : c.liveFrom (c.nextFrom i) = (c.liveFrom i).tail := by
  rw [nextFrom]
  cases hl : c.liveFrom i with
  | nil => exact liveFrom_end (by simp only [List.head?_nil, Option.map_none, Option.getD_none]; omega)
  | cons x l =>
    have hx : i ≤ x.1 := Nat.le_of_lt (mem_liveFrom.mp (hl ▸ List.mem_cons_self : (x.1, x.2) ∈ c.liveFrom i)).1
    have hp := pairwise_liveFrom c i
    rw [hl, List.pairwise_cons] at hp
    show c.liveFrom x.1 = l
    rw [liveFrom_later c hx, hl, List.filter_cons_of_neg (by simp), List.filter_eq_self.mpr]
    intro y hy
    simpa using hp.1 y hy

end Chain

theorem copy_reaches {c : Chain α} (h : c.Quiet) (i : Nat) (s : σ) :
    Reaches (Walk.step .copy) Walk.waits (8 * (c.nextFrom i - i) + 1) c (.resume i s)
      (c, .done ⟨c.nextFrom i, s, .copied (((c.liveFrom i).head?).map (·.2))⟩) := by
  have hw := walk_reaches h .copy i s 0
  rw [Walk.along_copy] at hw
  exact hw

end BusyWait
