import BusyWait.Proofs.Queue.Removals
import BusyWait.LockStep.Element

/-
  BusyWait.Proofs.Queue.Matches — removals by value, against one another.

  One element is removed, or all that equal one of a list, or all others. Equality is
  whatever `==` says: it need not be reflexive, and the element of the queue stands on
  the left of it where one item is given and on the right where a list is.

  What a removal of matches leaves of a queue is the queue without their nodes
  (`Shared.without`), one of a single element the queue without the node of the first
  match (`Shared.withoutFirst`). So nothing is left to a second call, the two removals by a
  list share the elements out between them (`Dealt`), and as long as there is a match, to
  remove the first and then all is to remove all (`FirstAt.without_withoutFirst`).

  - `Until.reaches`: one after the other, until nothing is found.
  - `removals_by_value`: all this of any queues that calls have led to.
-/

namespace BusyWait

variable {σ τ α β : Type}

open Chain Job

/-! ## Shared out -/

/-- A list and what is picked from it and what is left, both in its order. -/
inductive Dealt (picks : β → Prop) : List β → List β → List β → Prop
  | nil : Dealt picks [] [] []
  | picked {x : β} {l ps ls : List β} (hx : picks x) (h : Dealt picks l ps ls) : Dealt picks (x :: l) (x :: ps) ls
  | left {x : β} {l ps ls : List β} (hx : ¬picks x) (h : Dealt picks l ps ls) : Dealt picks (x :: l) ps (x :: ls)

namespace Dealt

variable {picks : β → Prop} {l ps ls : List β}

theorem of_filter (p : β → Bool) (hp : ∀ x, p x = true ↔ picks x) (l : List β) :
    Dealt picks l (l.filter p) (l.filter fun x => !p x) := by
  induction l with
  | nil => exact .nil
  | cons x l ih =>
    cases hx : p x with
    | true =>
      rw [List.filter_cons_of_pos hx, List.filter_cons_of_neg (by simp [hx])]
      exact .picked ((hp x).mp hx) ih
    | false =>
      rw [List.filter_cons_of_neg (by simp [hx]), List.filter_cons_of_pos (by simp [hx])]
      apply Dealt.left _ ih
      intro h
      rw [(hp x).mpr h] at hx
      cases hx

theorem sublists (h : Dealt picks l ps ls) : ps.Sublist l ∧ ls.Sublist l := by
  induction h with
  | nil => exact ⟨.refl _, .refl _⟩
  | picked _ _ ih => exact ⟨ih.1.cons_cons _, ih.2.cons _⟩
  | left _ _ ih => exact ⟨ih.1.cons _, ih.2.cons_cons _⟩

theorem mem_picked (h : Dealt picks l ps ls) : ∀ x ∈ ps, picks x := by
  induction h with
  | nil => exact List.forall_mem_nil _
  | picked hx _ ih => exact List.forall_mem_cons.mpr ⟨hx, ih⟩
  | left _ _ ih => exact ih

end Dealt

/-! ## Without the matches -/

namespace Chain

variable {c : Chain α} {p : α → Bool}

/-- The nodes of the elements of which `p` holds. -/
def matching (c : Chain α) (p : α → Bool) : List Nat := (c.live.filter fun x => p x.2).map (·.1)

/-- The first of these nodes, if there is one. -/
def firstMatch (c : Chain α) (p : α → Bool) : List Nat := (c.live.find? fun x => p x.2).toList.map (·.1)

theorem contains_matching (p : α → Bool) {x : Nat × α} (hx : x ∈ c.live) : (c.matching p).contains x.1 = p x.2 := by
  rw [Bool.eq_iff_iff, List.contains_iff_mem, matching, List.mem_map]
  constructor
  · intro ⟨y, hy, he⟩
    obtain ⟨hm, hp⟩ := List.mem_filter.mp hy
    have hyx : some y.2 = some x.2 := by
      rw [← (mem_liveFrom.mp hm).2, ← (mem_liveFrom.mp hx).2, he]
    rwa [← Option.some.inj hyx]
  · intro hp
    exact ⟨x, List.mem_filter.mpr ⟨hx, hp⟩, rfl⟩

theorem live_matching (c : Chain α) (p : α → Bool) :
    (c.scrapAll (c.matching p)).live = c.live.filter fun x => !p x.2 := by
  rw [live_scrapAll]
  apply List.filter_congr
  intro x hx
  rw [contains_matching p hx]

theorem matching_eq_nil : c.matching p = [] ↔ (c.live.any fun x => p x.2) = false := by
  rw [matching, List.map_eq_nil_iff, List.filter_eq_nil_iff, List.any_eq_false]

theorem live_firstMatch (c : Chain α) (p : α → Bool) :
    (c.scrapAll (c.firstMatch p)).live = c.live.eraseP fun x => p x.2 := by
  rw [live_scrapAll]
  exact filter_find (pairwise_liveFrom c c.head) _

end Chain

namespace Shared

variable {s : Shared α} {p : α → Bool}

def matched (s : Shared α) (p : α → Bool) : Bool := s.chain.live.any fun x => p x.2

/-- The queue without the elements of which `p` holds. -/
def without (s : Shared α) (p : α → Bool) : Shared α := { s with chain := s.chain.scrapAll (s.chain.matching p) }

/-- The queue without the first of them. -/
def withoutFirst (s : Shared α) (p : α → Bool) : Shared α := { s with chain := s.chain.scrapAll (s.chain.firstMatch p) }

theorem without_of_unmatched (h : s.matched p = false) : s.without p = s := by
  rw [without, matching_eq_nil.mpr h]
  rfl

theorem withoutFirst_of_unmatched (h : s.matched p = false) : s.withoutFirst p = s := by
  have hnone : s.chain.live.find? (fun x => p x.2) = none :=
    List.find?_eq_none.mpr (List.any_eq_false.mp h)
  rw [withoutFirst, firstMatch, hnone]
  rfl

theorem matched_without (s : Shared α) (p : α → Bool) : (s.without p).matched p = false := by
  rw [matched, without, live_matching, List.any_eq_false]
  intro x hx
  simpa using (List.mem_filter.mp hx).2

/-- `x` is the first element of which `p` holds. -/
structure FirstAt (s : Shared α) (p : α → Bool) (before : List (Nat × α)) (x : Nat × α) (after : List (Nat × α)) :
    Prop where
  live : s.chain.live = before ++ x :: after
  before : ∀ z ∈ before, p z.2 = false
  holds : p x.2 = true

theorem exists_firstAt (h : s.matched p = true) : ∃ before x after, s.FirstAt p before x after := by
  obtain ⟨hx, before, after, hl, hbefore⟩ :=
    List.find?_eq_some_iff_append.mp (Option.get_mem (List.find?_isSome.mpr (List.any_eq_true.mp h)))
  exact ⟨before, _, after, hl, fun z hz => by simpa using hbefore z hz, hx⟩

namespace FirstAt

variable {before after : List (Nat × α)} {x : Nat × α}

theorem matching (h : s.FirstAt p before x after) :
    s.chain.matching p = x.1 :: (after.filter fun z => p z.2).map (·.1) := by
  rw [Chain.matching, h.live, List.filter_append, List.filter_eq_nil_iff.mpr fun z hz => by simp [h.before z hz],
    List.nil_append, List.filter_cons_of_pos (p := fun z : Nat × α => p z.2) h.holds, List.map_cons]

theorem withoutFirst_eq (h : s.FirstAt p before x after) :
    s.withoutFirst p = { s with chain := s.chain.scrap x.1 .dropped } := by
  have hfind : s.chain.live.find? (fun z => p z.2) = some x :=
    List.find?_eq_some_iff_append.mpr ⟨h.holds, before, after, h.live, fun z hz => by simp [h.before z hz]⟩
  rw [withoutFirst, firstMatch, hfind]
  rfl

theorem live_withoutFirst (h : s.FirstAt p before x after) : (s.withoutFirst p).chain.live = before ++ after := by
  rw [withoutFirst, live_firstMatch, h.live, List.eraseP_append_right _ fun z hz => by simp [h.before z hz],
    List.eraseP_cons_of_pos (p := fun z : Nat × α => p z.2) h.holds]

/-- To remove the first match and then all is to remove all. -/
theorem without_withoutFirst (h : s.FirstAt p before x after) : (s.withoutFirst p).without p = s.without p := by
  have hrest : (s.withoutFirst p).chain.matching p = (after.filter fun z => p z.2).map (·.1) := by
    rw [Chain.matching, h.live_withoutFirst, List.filter_append,
      List.filter_eq_nil_iff.mpr fun z hz => by simp [h.before z hz], List.nil_append]
  rw [without, hrest, h.withoutFirst_eq, without, h.matching]
  rfl

end FirstAt

end Shared

/-! ## The calls -/

section
variable {s : Shared α} {init : τ} [BEq α]

/-- A call that removes all that `p` holds of. -/
theorem perform_all (h : s.chain.Quiet) {call : Call τ α} {p : α → Bool}
    (hcall : (Job.start init s call).1 = .more (.walk (.remove (plain p) none) (.start init) anyRemoved)) :
    s.perform init call = (s.without p, some (.yes (s.matched p))) := by
  have hlands := Job.walk_lands s.flags s.now h (.remove (plain p) none) init anyRemoved
  have hwhole : Walk.whole (.remove (plain p) none) s.chain init =
      (s.chain.matching p, ⟨s.chain.nodes.size - 1, init, .removed (0 + s.chain.live.countP fun x => p x.2)⟩) :=
    along_removeAll p _ s.chain.live init 0
  have hreply : decide (0 < 0 + s.chain.live.countP fun x => p x.2) = s.matched p := by
    rw [Nat.zero_add, Shared.matched, Bool.eq_iff_iff, decide_eq_true_iff, List.countP_pos_iff, List.any_eq_true]
  rw [hwhole] at hlands
  rw [Shared.perform_of_lands hcall hlands, ← hreply]
  rfl

theorem perform_removeAll (h : s.chain.Quiet) (items : List α) :
    s.perform init (.removeAll items) = (s.without (among items), some (.yes (s.matched (among items)))) :=
  perform_all h rfl

theorem perform_retainAll (h : s.chain.Quiet) (items : List α) : s.perform init (.retainAll items) =
    (s.without fun x => !among items x, some (.yes (s.matched fun x => !among items x))) :=
  perform_all h rfl

theorem perform_contains (h : s.chain.Quiet) (y : α) :
    s.perform init (.contains y) = (s, some (.yes (s.matched (· == y)))) := by
  obtain ⟨k, hk⟩ := whole_find h (· == y) init
  apply (Shared.perform_of_lands rfl (Job.walk_lands s.flags s.now h (.find (plain (· == y))) init _)).trans
  rw [hk, ← any_toList h]
  rfl

theorem perform_removeItem (h : s.chain.Quiet) (y : α) :
    s.perform init (.removeItem y) = (s.withoutFirst (· == y), some (.yes (s.matched (· == y)))) := by
  obtain ⟨k, hk⟩ := along_removeOne (σ := τ) (· == y) (s.chain.nodes.size - 1) s.chain.live init
  have hwhole : Walk.whole (.remove (plain (· == y)) (some 1)) s.chain init =
      (s.chain.firstMatch (· == y), ⟨k, init, .removed (s.matched (· == y)).toNat⟩) := hk
  have hlands := Job.walk_lands s.flags s.now h (.remove (plain (· == y)) (some 1)) init anyRemoved
  have hreply : decide (0 < (s.matched (· == y)).toNat) = s.matched (· == y) := by
    cases s.matched (· == y) <;> rfl
  rw [hwhole] at hlands
  rw [Shared.perform_of_lands rfl hlands]
  refine Prod.ext rfl (congrArg some ?_)
  show Reply.yes (decide _) = _
  rw [hreply]

/-- What a removal of all matches does with a queue. -/
structure Bulk (init : τ) (s : Shared α) (call : Call τ α) : Prop where
  reply : (s.perform init call).2 = some (.yes (decide ((s.perform init call).1.chain.length ≠ s.chain.length)))
  again : (s.perform init call).1.perform init call = ((s.perform init call).1, some (.yes false))

theorem bulk_of_perform (h : s.chain.Quiet) {call : Call τ α} {p : α → Bool}
    (hcall : ∀ s : Shared α, s.chain.Quiet → s.perform init call = (s.without p, some (.yes (s.matched p)))) :
    Bulk init s call := by
  have hq : (s.without p).chain.Quiet := quiet_scrapAll h _
  constructor
  · have hlength : (s.without p).chain.length ≠ s.chain.length ↔ s.matched p = true := by
      rw [hq.length_eq, h.length_eq, Shared.without, live_matching, Ne, List.length_filter_eq_length_iff,
        Shared.matched, List.any_eq_true]
      simp
    rw [hcall s h]
    simp [hlength]
  · rw [hcall s h, hcall _ hq, s.matched_without, Shared.without_of_unmatched (s.matched_without p)]

end

/-! ## One after the other -/

section
variable [BEq α]

/-- A call made again and again until it replies no: how often the reply was yes, and where that leads. -/
inductive Until (init : τ) (call : Call τ α) : Shared α → Nat → Shared α → Prop
  | stop {s s' : Shared α} (h : s.perform init call = (s', some (.yes false))) : Until init call s 0 s'
  | again {s s' t : Shared α} {k : Nat} (h : s.perform init call = (s', some (.yes true)))
    (hrest : Until init call s' k t) : Until init call s (k + 1) t

variable {init : τ} {s : Shared α}

/-- It leads to one place only. -/
theorem Until.unique {call : Call τ α} {t t' : Shared α} {k k' : Nat} (h : Until init call s k t)
    (h' : Until init call s k' t') : k = k' ∧ t = t' := by
  induction h generalizing k' with
  | stop h =>
    cases h' with
    | stop h' =>
      rw [h] at h'
      exact ⟨rfl, congrArg Prod.fst h'⟩
    | again h' _ =>
      rw [h] at h'
      cases h'
  | again h _ ih =>
    cases h' with
    | stop h' =>
      rw [h] at h'
      cases h'
    | again h' hrest' =>
      rw [h] at h'
      obtain ⟨rfl, -⟩ := Prod.mk.inj h'
      obtain ⟨rfl, rfl⟩ := ih hrest'
      exact ⟨rfl, rfl⟩

/-- By induction on the number of the matches: each call removes one of them. -/
theorem Until.reaches (h : s.chain.Quiet) (init : τ) (y : α) :
    Until init (.removeItem y) s (s.chain.live.countP fun x => x.2 == y) (s.without (· == y)) := by
  generalize hk : (s.chain.live.countP fun x => x.2 == y) = k
  induction k generalizing s with
  | zero =>
    have hm : s.matched (· == y) = false := by
      rw [Shared.matched, List.any_eq_false]
      exact List.countP_eq_zero.mp hk
    rw [Shared.without_of_unmatched hm]
    exact .stop (by rw [perform_removeItem h, hm, Shared.withoutFirst_of_unmatched hm])
  | succ k ih =>
    have hm : s.matched (· == y) = true := by
      rw [Shared.matched, List.any_eq_true, ← List.countP_pos_iff, hk]
      exact Nat.succ_pos k
    have hq : (s.withoutFirst (· == y)).chain.Quiet := quiet_scrapAll h _
    obtain ⟨before, x, after, hfirst⟩ := Shared.exists_firstAt hm
    have hfewer : ((s.withoutFirst (· == y)).chain.live.countP fun x => x.2 == y) = k := by
      rw [hfirst.live, List.countP_append, List.countP_cons, if_pos hfirst.holds] at hk
      rw [hfirst.live_withoutFirst, List.countP_append]
      omega
    have hone : s.perform init (.removeItem y) = (s.withoutFirst (· == y), some (.yes true)) := by
      rw [perform_removeItem h, hm]
    apply Until.again hone
    rw [← hfirst.without_withoutFirst]
    exact ih hq hfewer

/-- Of the elements that equal `y` the first is gone, if there is one, and nothing else has changed. -/
inductive FirstGone (y : α) (s : Shared α) : Bool → Shared α → Prop
  | none (h : ∀ x ∈ s.chain.toList, (x == y) = false) : FirstGone y s false s
  | one {before after : List (Nat × α)} {x : Nat × α} {s' : Shared α} (h : s.FirstAt (· == y) before x after)
    (hlive : s'.chain.live = before ++ after) (hs : s' = { s with chain := s.chain.scrap x.1 .dropped }) :
    FirstGone y s true s'

theorem firstGone (h : s.chain.Quiet) (y : α) : FirstGone y s (s.matched (· == y)) (s.withoutFirst (· == y)) := by
  cases hm : s.matched (· == y) with
  | false =>
    rw [Shared.withoutFirst_of_unmatched hm]
    apply FirstGone.none
    rw [Shared.matched, any_toList h (· == y), List.any_eq_false] at hm
    simpa using hm
  | true =>
    obtain ⟨before, x, after, hfirst⟩ := Shared.exists_firstAt hm
    exact .one hfirst hfirst.live_withoutFirst hfirst.withoutFirst_eq

end

/-! ## Removals by value -/

section
variable [BEq α]

/-- What the removals by value do with a queue `s`, and with `s'` which has the same elements. -/
structure ByValue (init : τ) (s s' : Shared α) (items : List α) : Prop where
  /-- The elements that one removal by the list leaves and those that the other leaves. -/
  dealt : Dealt (fun x => ∃ y ∈ items, (y == x) = true) s.chain.toList
    (s'.perform init (.retainAll items)).1.chain.toList (s.perform init (.removeAll items)).1.chain.toList
  sublists : ((s'.perform init (.retainAll items)).1.chain.toList).Sublist s.chain.toList ∧
    ((s.perform init (.removeAll items)).1.chain.toList).Sublist s.chain.toList
  /-- An element that nothing equals is kept by the one, and removed by the other. -/
  unlike : ∀ x ∈ s.chain.toList, (∀ y : α, (y == x) = false) →
    x ∈ (s.perform init (.removeAll items)).1.chain.toList ∧ x ∉ (s'.perform init (.retainAll items)).1.chain.toList
  removeAll : Bulk init s (.removeAll items)
  retainAll : Bulk init s' (.retainAll items)
  /-- Where one item is given, its removal finds what a search finds, and removes the first of it. -/
  single : ∀ y : α, ∃ b, s.perform init (.contains y) = (s, some (.yes b)) ∧
    (s.perform init (.removeItem y)).2 = some (.yes b) ∧ FirstGone y s b (s.perform init (.removeItem y)).1
  /-- With a symmetric equality a search finds nothing of the list any more. -/
  gone : (∀ a b : α, (a == b) = (b == a)) → ∀ y ∈ items, let t := (s.perform init (.removeAll items)).1
    t.perform init (.contains y) = (t, some (.yes false))
  /-- And to remove an item until there is none comes to an end, which is to remove all. -/
  until_none : (∀ a b : α, (a == b) = (b == a)) → ∀ (y : α) (k : Nat) (t : Shared α),
    Until init (.removeItem y) s k t ↔
      k = s.chain.toList.countP (· == y) ∧ t = (s.perform init (.removeAll [y])).1

/-- Where no call is under way nobody is at work on the chain. -/
theorem Traffic.quiet_of_resting (n m : Nat) (es : List (Traffic.Event σ α))
    (hrest : ((Traffic.start n m).run es).Resting) : ((Traffic.start n m).run es).shared.chain.Quiet := by
  have hrun := Traffic.run_keeps Traffic.sentinel_step (t := Traffic.start n m) ⟨Traffic.records_start n m, rfl⟩ es
  exact hrun.1.custody.quiet hrun.2 hrest.idle

omit [BEq α] in
theorem toList_without {s : Shared α} (h : s.chain.Quiet) (p : α → Bool) :
    (s.without p).chain.toList = s.chain.toList.filter fun x => !p x := by
  have hq : (s.without p).chain.Quiet := quiet_scrapAll h _
  rw [hq.toList_eq, Shared.without, live_matching, h.toList_eq, List.filter_map]
  rfl

theorem among_iff {items : List α} {x : α} : among items x = true ↔ ∃ y ∈ items, (y == x) = true := List.any_eq_true

theorem byValue {s s' : Shared α} (h : s.chain.Quiet) (h' : s'.chain.Quiet)
    (hsame : s'.chain.toList = s.chain.toList) (init : τ) (items : List α) : ByValue init s s' items := by
  have hremoved : (s.perform init (.removeAll items)).1.chain.toList =
      s.chain.toList.filter fun x => !among items x := by
    rw [perform_removeAll h, toList_without h]
  have hretained : (s'.perform init (.retainAll items)).1.chain.toList = s.chain.toList.filter (among items) := by
    rw [perform_retainAll h', toList_without h', hsame]
    simp
  have hdealt : Dealt (fun x => ∃ y ∈ items, (y == x) = true) s.chain.toList
      (s'.perform init (.retainAll items)).1.chain.toList (s.perform init (.removeAll items)).1.chain.toList := by
    rw [hremoved, hretained]
    exact .of_filter _ (fun _ => among_iff) _
  refine ⟨hdealt, hdealt.sublists, ?_, bulk_of_perform h fun _ hs => perform_removeAll hs items,
    bulk_of_perform h' fun _ hs => perform_retainAll hs items, ?_, ?_, ?_⟩
  · intro x hx hunlike
    have hnot : ¬∃ y ∈ items, (y == x) = true := by
      intro hy
      obtain ⟨y, -, hy⟩ := hy
      rw [hunlike y] at hy
      cases hy
    refine ⟨?_, ?_⟩
    · rw [hremoved, List.mem_filter, Bool.not_eq_true', ← Bool.not_eq_true, among_iff]
      exact ⟨hx, hnot⟩
    · intro hmem
      exact hnot (hdealt.mem_picked x hmem)
  · intro y
    refine ⟨_, perform_contains h y, ?_, ?_⟩
    · rw [perform_removeItem h]
    · rw [perform_removeItem h]
      exact firstGone h y
  · intro hsymm y hy
    rw [perform_removeAll h]
    have hq : (s.without (among items)).chain.Quiet := quiet_scrapAll h _
    have hnone : (s.without (among items)).matched (· == y) = false := by
      rw [Shared.matched, any_toList hq (· == y), toList_without h, List.any_eq_false]
      intro x hx hxy
      obtain ⟨-, hnot⟩ := List.mem_filter.mp hx
      rw [hsymm] at hxy
      simp [among_iff.mpr ⟨y, hy, hxy⟩] at hnot
    intro t
    rw [perform_contains hq, hnone]
  · intro hsymm y k t
    have hone : among [y] = (· == y) := by
      funext x
      rw [hsymm x y, among, List.any_cons, List.any_nil, Bool.or_false]
    have hcount : s.chain.toList.countP (· == y) = s.chain.live.countP fun x => x.2 == y := by
      rw [h.toList_eq, List.countP_map]
      rfl
    have hreach := Until.reaches h init y
    rw [perform_removeAll h, hone, hcount]
    constructor
    · intro ht
      exact ht.unique hreach
    · intro ht
      obtain ⟨rfl, rfl⟩ := ht
      exact hreach

/-- Whatever calls there have been of two queues, once none is under way and they store the same elements. -/
theorem removals_by_value (n m n' m' : Nat) (es es' : List (Traffic.Event σ α))
    (hrest : ((Traffic.start n m).run es).Resting) (hrest' : ((Traffic.start n' m').run es').Resting)
    (hsame : ((Traffic.start n' m').run es').shared.chain.toList = ((Traffic.start n m).run es).shared.chain.toList)
    (init : τ) (items : List α) :
    ByValue init ((Traffic.start n m).run es).shared ((Traffic.start n' m').run es').shared items :=
  byValue (Traffic.quiet_of_resting n m es hrest) (Traffic.quiet_of_resting n' m' es' hrest') hsame init items

end

section
open LockStep

local instance : BEq Floating := ⟨Floating.same⟩

/-- Four numbers were put in at once, or after another one that was then taken out. -/
theorem removals_by_value_four :
    let es : List (Traffic.Event Unit Floating) :=
      .begin 0 () (.addAll [.one, .nan, .zero, .one]) :: .replicate 16 (.turn 0)
    let es' : List (Traffic.Event Unit Floating) :=
      .begin 0 () (.addAll [.inf, .one, .nan, .zero, .one]) :: .replicate 20 (.turn 0) ++
        .begin 1 () .poll :: .replicate 12 (.turn 1)
    let t := (Traffic.start 1 0).run es
    let t' := (Traffic.start 2 0).run es'
    t.Resting ∧ t'.Resting ∧ t'.shared.chain.toList = t.shared.chain.toList ∧
      (∀ a b : Floating, (a == b) = (b == a)) ∧ ByValue () t.shared t'.shared [.nan, .one] ∧
      (t.shared.perform () (.removeAll [.nan, .one])).1.chain.toList = [.nan, .zero] ∧
      (t'.shared.perform () (.retainAll [.nan, .one])).1.chain.toList = [.one, .one] := by
  intro es es' t t'
  have hdone : ∀ t : Traffic Unit Floating, (t.calls.all fun u => u.all fun u => u.job?.isNone) = true → t.Resting := by
    intro t hall k u hk
    have hu : u.job?.isNone = true := List.all_eq_true.mp hall _ (List.mem_of_getElem? hk)
    rcases u with ⟨call, j | r⟩
    · cases hu
    · exact ⟨r, rfl⟩
  have hrest : t.Resting := hdone t (by decide +kernel)
  have hrest' : t'.Resting := hdone t' (by decide +kernel)
  have hsame : t'.shared.chain.toList = t.shared.chain.toList := by decide +kernel
  exact ⟨hrest, hrest', hsame, Floating.same_comm, removals_by_value 1 0 2 0 es es' hrest hrest' hsame () [.nan, .one],
    by decide +kernel, by decide +kernel⟩

end

end BusyWait
