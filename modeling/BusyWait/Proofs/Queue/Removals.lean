import BusyWait.Proofs.Queue.Ownership

/-
  BusyWait.Proofs.Queue.Removals — what a removal visits, what it removes, and where it stops.

  A removal asks a question about one element after the other. The question may keep a
  state and may break off. The elements that were visited, each with its answer, are a list
  of `Visit`s: the first of those that there were, asked in the order of the chain, until
  nothing is left, enough is removed, or the question has broken off (`Sweep`). Those with
  a yes are gone, and nothing else has changed (`Chain.Swept`). Nobody has been left inside
  a node, so whatever is called next finds nobody to wait for.

  - `sweep_along`: a walk that removes is a sweep, by induction on what is ahead.
  - `perform_logging`: what a question writes down that it was asked about is the visits.
  - `removals_sweep`: every removal of a queue, after any calls that are all over.
-/

namespace BusyWait

variable {σ τ α : Type}

open Chain Job

/-- An element that a question was asked about, its node and the answer. -/
structure Visit (α : Type) where
  node : Nat
  item : α
  answer : Except Fault Bool

namespace Visit

def place (v : Visit α) : Nat × α := (v.node, v.item)

/-- The answer was yes. -/
def removes (v : Visit α) : Bool :=
  match v.answer with
  | .ok b => b
  | .error _ => false

/-- There was an answer. -/
def answered (v : Visit α) : Prop := ∃ b, v.answer = .ok b

@[simp] theorem removes_ok (j : Nat) (a : α) (b : Bool) : (⟨j, a, .ok b⟩ : Visit α).removes = b := rfl

@[simp] theorem removes_error (j : Nat) (a : α) (f : Fault) : (⟨j, a, .error f⟩ : Visit α).removes = false := rfl

/-- The nodes of the elements that were removed. -/
def gone (vs : List (Visit α)) : List Nat := (vs.filter Visit.removes).map (·.node)

@[simp] theorem gone_nil : gone ([] : List (Visit α)) = [] := rfl

@[simp] theorem gone_cons (v : Visit α) (vs : List (Visit α)) :
    gone (v :: vs) = if v.removes then v.node :: gone vs else gone vs := by
  rw [gone, List.filter_cons]
  split <;> rfl

theorem mem_gone {vs : List (Visit α)} {i : Nat} : i ∈ gone vs ↔ ∃ v ∈ vs, v.removes = true ∧ v.node = i := by
  simp [gone, and_assoc]

end Visit

/-- The visits that lead a question from a state to another, each in the state that the visit before has left. -/
inductive Asked (ask : Ask σ α) : σ → List (Visit α) → σ → Prop
  | nil {s : σ} : Asked ask s [] s
  | cons {s s' s'' : σ} {v : Visit α} {vs : List (Visit α)} (hv : ask s v.item = (s', v.answer))
    (hvs : Asked ask s' vs s'') : Asked ask s (v :: vs) s''

/-- The question, which writes down what it is asked about. -/
def logging (ask : Ask σ α) : Ask (σ × List α) α := fun s a => (((ask s.1 a).1, s.2 ++ [a]), (ask s.1 a).2)

/-- So the visits are what the question was asked about, and when. -/
theorem Asked.log {ask : Ask σ α} {s s' : σ × List α} {vs : List (Visit α)} (h : Asked (logging ask) s vs s') :
    s'.2 = s.2 ++ vs.map (·.item) := by
  induction h with
  | nil => simp
  | cons hv _ ih =>
    obtain ⟨rfl, -⟩ := Prod.mk.inj hv
    rw [ih]
    simp

/-- The visits of a removal that has removed `n` elements and has those of `l` ahead, and its end. -/
structure Sweep (ask : Ask σ α) (limit : Option Nat) (n : Nat) (s : σ) (l : List (Nat × α)) (vs : List (Visit α))
    (s' : σ) (result : Except Fault Nat) : Prop where
  /-- They go to the first of the elements ahead, each once, in their order. -/
  places : vs.map Visit.place = l.take vs.length
  asked : Asked ask s vs s'
  /-- No visit comes after one at which the question broke off, or after the removal of as many as may be removed. -/
  onward : ∀ before v after, vs = before ++ v :: after →
    (∀ u ∈ before, u.answered) ∧ ∀ m, limit = some m → n + before.countP Visit.removes < m
  /-- There are no fewer. -/
  ends : vs.length = l.length ∨ limit = some (n + vs.countP Visit.removes) ∨
    ∃ v f, vs.getLast? = some v ∧ v.answer = .error f
  broke : ∀ v ∈ vs, ∀ f, v.answer = .error f → result = .error f
  counted : (∀ v ∈ vs, v.answered) → result = .ok (n + vs.countP Visit.removes)

namespace Sweep

variable {ask : Ask σ α} {limit : Option Nat} {n : Nat} {s s' : σ} {j : Nat} {a : α} {l : List (Nat × α)}

/-- Nothing is left, or enough is removed. -/
theorem stop (h : l = [] ∨ limit = some n) : Sweep ask limit n s l [] s (.ok n) where
  places := rfl
  asked := .nil
  onward before v after hv := by simp at hv
  ends := by
    rcases h with rfl | h
    · exact .inl rfl
    · exact .inr (.inl h)
  broke v hv := by simp at hv
  counted _ := rfl

theorem breaks (hn : ∀ m, limit = some m → n < m) {f : Fault} (ha : ask s a = (s', .error f)) :
    Sweep ask limit n s ((j, a) :: l) [⟨j, a, .error f⟩] s' (.error f) where
  places := rfl
  asked := .cons ha .nil
  onward before v after hv := by
    obtain ⟨rfl, -⟩ | ⟨_, rfl, hv⟩ := List.cons_eq_append_iff.mp hv
    · simpa using hn
    · simp at hv
  ends := .inr (.inr ⟨_, f, rfl, rfl⟩)
  broke v hv g hg := by
    obtain rfl := List.mem_singleton.mp hv
    cases hg
    rfl
  counted h := by
    obtain ⟨b, hb⟩ := h _ (List.mem_singleton_self _)
    cases hb

theorem cons (hn : ∀ m, limit = some m → n < m) {b : Bool} {t : σ} (ha : ask s a = (t, .ok b)) {vs : List (Visit α)}
    {result : Except Fault Nat} (h : Sweep ask limit (n + b.toNat) t l vs s' result) :
    Sweep ask limit n s ((j, a) :: l) (⟨j, a, .ok b⟩ :: vs) s' result := by
  have hcount : ∀ us : List (Visit α),
      n + (⟨j, a, .ok b⟩ :: us).countP Visit.removes = n + b.toNat + us.countP Visit.removes := by
    intro us
    rw [List.countP_cons, Visit.removes_ok]
    cases b <;> simp
    omega
  refine ⟨?_, .cons ha h.asked, ?_, ?_, ?_, ?_⟩
  · rw [List.map_cons, h.places]
    rfl
  · intro before v after hv
    obtain ⟨rfl, -⟩ | ⟨before, rfl, rfl⟩ := List.cons_eq_append_iff.mp hv
    · simpa using hn
    · obtain ⟨hu, hlimit⟩ := h.onward before v after rfl
      rw [hcount, List.forall_mem_cons]
      exact ⟨⟨⟨b, rfl⟩, hu⟩, hlimit⟩
  · rw [hcount]
    rcases h.ends with he | he | ⟨v, f, hv, hf⟩
    · exact .inl (congrArg (· + 1) he)
    · exact .inr (.inl he)
    · exact .inr (.inr ⟨v, f, by rw [List.getLast?_cons, hv]; rfl, hf⟩)
  · intro v hv f hf
    rcases List.mem_cons.mp hv with rfl | hv
    · cases hf
    · exact h.broke v hv f hf
  · intro hall
    rw [hcount]
    exact h.counted fun v hv => hall v (List.mem_cons_of_mem _ hv)

end Sweep

/-! ## A walk that removes -/

/-- How a removal with this result ends. -/
def Outcome.ofResult : Except Fault Nat → Outcome α
  | .ok n => .removed n
  | .error f => .broke f

theorem removedOf_ofResult (k : Nat) (s : σ) (result : Except Fault Nat) :
    removedOf (⟨k, s, .ofResult result⟩ : Walked σ α) = result := by
  cases result <;> rfl

/-- A walk goes on as long as it may remove more. -/
theorem Walk.not_sated {w : Walk σ α} (ask : Ask σ α) {limit : Option Nat}
    (h : ∀ m, limit = some m → w.removed < m) : w.sated (.remove ask limit) = false := by
  cases limit with
  | none => rfl
  | some m => exact decide_eq_false (Nat.not_le.mpr (h m rfl))

theorem sweep_along (ask : Ask σ α) (limit : Option Nat) (last : Nat) (l : List (Nat × α)) (s : σ) (n : Nat)
    (hn : ∀ m, limit = some m → n < m) : ∃ vs s' result k, Sweep ask limit n s l vs s' result ∧
      Walk.along (.remove ask limit) last l s n = (Visit.gone vs, ⟨k, s', .ofResult result⟩) := by
  induction l generalizing s n with
  | nil => exact ⟨[], s, .ok n, last, .stop (.inl rfl), rfl⟩
  | cons x l ih =>
    obtain ⟨j, a⟩ := x
    rcases ha : ask s a with ⟨t, f | b⟩
    · exact ⟨_, t, _, j, .breaks hn ha, by simp [Walk.along, Walk.see, ha, Outcome.ofResult]⟩
    · cases b with
      | false =>
        obtain ⟨vs, s', result, k, hsweep, halong⟩ := ih t n hn
        refine ⟨_, s', result, k, .cons hn ha hsweep, ?_⟩
        simp [Walk.along, Walk.see, ha, halong]
      | true =>
        by_cases hsat : limit = some (n + 1)
        · refine ⟨_, t, _, j, .cons hn ha (.stop (.inr hsat)), ?_⟩
          simp [Walk.along, Walk.see, Walk.sated, ha, hsat, Outcome.ofResult]
        · have hn' : ∀ m, limit = some m → n + 1 < m := fun m hm =>
            Nat.lt_of_le_of_ne (hn m hm) fun he => hsat (he ▸ hm)
          obtain ⟨vs, s', result, k, hsweep, halong⟩ := ih t (n + 1) hn'
          refine ⟨_, s', result, k, .cons hn ha hsweep, ?_⟩
          have hgo : (⟨.seek, j, t, n + 1⟩ : Walk σ α).sated (.remove ask limit) = false := Walk.not_sated ask hn'
          simp [Walk.along, Walk.see, ha, hgo, halong]

/-- A removal from the head. -/
theorem sweep_whole (ask : Ask σ α) (limit : Option Nat) (c : Chain α) (s : σ) : ∃ vs s' result k,
    Sweep ask limit 0 s c.live vs s' result ∧
      Walk.whole (.remove ask limit) c s = (Visit.gone vs, ⟨k, s', .ofResult result⟩) := by
  by_cases hzero : limit = some 0
  · exact ⟨[], s, .ok 0, 0, .stop (.inr hzero), by subst hzero; rfl⟩
  · have hn : ∀ m, limit = some m → 0 < m := fun m hm => Nat.pos_of_ne_zero fun he => hzero (he ▸ hm)
    obtain ⟨vs, s', result, k, hsweep, halong⟩ := sweep_along ask limit (c.nodes.size - 1) c.live s 0 hn
    refine ⟨vs, s', result, k, hsweep, ?_⟩
    rw [Walk.whole, Walk.not_sated ask hn, halong]
    rfl

/-! ## What it leaves of the chain -/

namespace Chain

theorem node_scrap (c : Chain α) (i j : Nat) (s : Slot α) : (c.scrap i s).node j =
    if i = j ∧ j < c.nodes.size then { c.node j with word := .owned, slot := s } else c.node j := by
  rw [scrap, setSlot, node_modify_eq, size_setWord, setWord, node_modify_eq]
  split <;> rfl

theorem node_scrapAll (c : Chain α) (js : List Nat) (i : Nat) : (c.scrapAll js).node i =
    if i ∈ js ∧ i < c.nodes.size then { c.node i with word := .owned, slot := .dropped } else c.node i := by
  induction js generalizing c with
  | nil => simp
  | cons j js ih =>
    rw [scrapAll_cons, ih, node_scrap, size_scrap]
    by_cases hi : i < c.nodes.size
    · by_cases hj : j = i
      · subst hj
        simp [hi]
      · simp [hi, hj, Ne.symm hj]
    · simp [hi]

theorem size_scrapAll (c : Chain α) (js : List Nat) : (c.scrapAll js).nodes.size = c.nodes.size := by
  induction js generalizing c with
  | nil => rfl
  | cons j js ih => rw [scrapAll_cons, ih, size_scrap]

theorem ends_scrapAll (c : Chain α) (js : List Nat) :
    (c.scrapAll js).head = c.head ∧ (c.scrapAll js).tail = c.tail := by
  induction js generalizing c with
  | nil => exact ⟨rfl, rfl⟩
  | cons j js ih => exact ih (c.scrap j .dropped)

/-- What is left of a chain after these visits. -/
structure Swept (c c' : Chain α) (vs : List (Visit α)) : Prop where
  /-- The nodes that were visited are the first that were not claimed. -/
  nodes : vs.map Visit.node = c.unclaimed.take vs.length
  items : vs.map Visit.item = c.toList.take vs.length
  /-- The visited elements that were not removed, and those that were not visited, in their order. -/
  live : c'.live = (vs.filter fun v => !v.removes).map Visit.place ++ c.live.drop vs.length
  toList : c'.toList = (vs.filter fun v => !v.removes).map Visit.item ++ c.toList.drop vs.length
  /-- A removed element was in its node, which is claimed now, and where it was dropped. -/
  removed : ∀ v ∈ vs, v.removes = true → (c.node v.node).slot = .holds v.item ∧
    c'.node v.node = { c.node v.node with word := .owned, slot := .dropped }
  others : ∀ i, (∀ v ∈ vs, v.removes = true → v.node ≠ i) → c'.node i = c.node i
  size : c'.nodes.size = c.nodes.size
  ends : c'.head = c.head ∧ c'.tail = c.tail
  /-- Nobody is in any node: where the element is the word is zero, and else it is the writer's bit. -/
  words : ∀ i < c'.nodes.size, (c'.node i).word = if (c'.elem i).isSome then .free else .owned

/-- Without the nodes of the removed elements. -/
theorem filter_gone {vs : List (Visit α)} {l : List (Nat × α)}
    (h : (vs.map Visit.place ++ l).Pairwise (·.1 < ·.1)) :
    ((vs.map Visit.place ++ l).filter fun x => !(Visit.gone vs).contains x.1) =
      (vs.filter fun v => !v.removes).map Visit.place ++ l := by
  induction vs with
  | nil => simp
  | cons v vs ih =>
    obtain ⟨hv, h⟩ := List.pairwise_cons.mp h
    -- the node of the first visit is none of those that come after
    have hne : ∀ x ∈ vs.map Visit.place ++ l, x.1 ≠ v.node := fun x hx => Nat.ne_of_gt (hv x hx)
    rw [List.map_cons, List.cons_append]
    cases hr : v.removes with
    | true =>
      rw [Visit.gone_cons, if_pos hr, List.filter_cons_of_neg (by simp [Visit.place]),
        List.filter_cons_of_neg (by simp [hr]), ← ih h]
      refine List.filter_congr fun x hx => ?_
      simp [hne x hx]
    | false =>
      have hnot : v.node ∉ Visit.gone vs := by
        intro hm
        obtain ⟨u, hu, -, he⟩ := Visit.mem_gone.mp hm
        exact hne u.place (List.mem_append_left _ (List.mem_map_of_mem hu)) he
      rw [Visit.gone_cons, if_neg (by simp [hr]), List.filter_cons_of_pos (by simpa [Visit.place] using hnot),
        List.filter_cons_of_pos (by simp [hr]), ih h]
      rfl

theorem swept_scrapAll {c : Chain α} (h : c.Quiet) {vs : List (Visit α)}
    (hv : vs.map Visit.place = c.live.take vs.length) : c.Swept (c.scrapAll (Visit.gone vs)) vs := by
  have hq := quiet_scrapAll h (Visit.gone vs)
  have hsplit : c.live = vs.map Visit.place ++ c.live.drop vs.length := by rw [hv, List.take_append_drop]
  have hlive : (c.scrapAll (Visit.gone vs)).live =
      (vs.filter fun v => !v.removes).map Visit.place ++ c.live.drop vs.length := by
    have hp : (vs.map Visit.place ++ c.live.drop vs.length).Pairwise (·.1 < ·.1) :=
      hsplit ▸ pairwise_liveFrom c c.head
    rw [live_scrapAll]
    conv_lhs => rw [hsplit]
    exact filter_gone hp
  have helem : ∀ v ∈ vs, c.elem v.node = some v.item := by
    intro v hmem
    have hm : v.place ∈ c.live := by
      rw [hsplit]
      exact List.mem_append_left _ (List.mem_map_of_mem hmem)
    exact (mem_liveFrom.mp hm).2
  refine ⟨?_, ?_, hlive, ?_, ?_, ?_, size_scrapAll c _, ends_scrapAll c _, hq.word⟩
  · rw [h.unclaimed, ← List.map_take, ← hv, List.map_map]
    rfl
  · rw [h.toList_eq, ← List.map_take, ← hv, List.map_map]
    rfl
  · rw [hq.toList_eq, hlive, h.toList_eq, List.map_append, List.map_map, List.map_drop]
    rfl
  · intro v hmem hr
    refine ⟨slot_of_elem (helem v hmem), ?_⟩
    rw [node_scrapAll, if_pos ⟨Visit.mem_gone.mpr ⟨v, hmem, hr, rfl⟩, lt_of_elem (helem v hmem)⟩]
  · intro i hi
    rw [node_scrapAll, if_neg]
    rintro ⟨hm, -⟩
    obtain ⟨v, hmem, hr, he⟩ := Visit.mem_gone.mp hm
    exact hi v hmem hr he

end Chain

/-! ## The removals of a queue -/

namespace Call

section
variable [BEq α]

/-- The question of a removal, and how many elements it may remove. -/
def removal? : Call σ α → Option (Ask σ α × Option Nat)
  | .removeItem a => some (plain (· == a), some 1)
  | .removeAll as => some (plain (among as), none)
  | .retainAll as => some (plain fun x => !among as x, none)
  | .retain keep => some (negated keep, none)
  | .clear => some (plain fun _ => true, none)
  | .removeWhere ask limit => some (ask, limit)
  | _ => none

end

/-- What it replies to this result, with the question in this state. -/
def concludes (result : Except Fault Nat) (s : σ) : Call σ α → Reply σ α
  | .removeWhere _ _ => .removed result s
  | .retain _ => .retained (result.map (0 < ·)) s
  | .clear =>
    match result with
    | .ok _ => .done
    | .error f => .fault f
  | _ =>
    match result with
    | .ok n => .yes (0 < n)
    | .error f => .fault f

end Call

variable [BEq α]

/-- A removal is a walk from the head. -/
theorem start_removal (init : σ) (s : Shared α) {call : Call σ α} {ask : Ask σ α} {limit : Option Nat}
    (h : call.removal? = some (ask, limit)) : ∃ reply : Walked σ α → Reply σ α,
      (Job.start init s call).1 = .more (.walk (.remove ask limit) (.start init) reply) ∧
        ∀ e, reply e = call.concludes (removedOf e) e.state := by
  cases call
  case removeItem | removeAll | retainAll | retain | clear | removeWhere =>
    cases h
    exact ⟨_, rfl, fun _ => rfl⟩
  all_goals cases h

/-- What a removal has done by its end. -/
structure Removal (ask : Ask σ α) (limit : Option Nat) (init : σ) (s s' : Shared α) (vs : List (Visit α)) (state : σ)
    (result : Except Fault Nat) : Prop where
  sweep : Sweep ask limit 0 init s.chain.live vs state result
  swept : s.chain.Swept s'.chain vs
  same : s'.flags = s.flags ∧ s'.now = s.now
  /-- Whatever is called afterwards gets to its reply, unless it waits for an element when there is none. -/
  prompt : ∀ {τ : Type} (first : τ) (before : List (Call τ α)) (call : Call τ α),
    let s'' := before.foldl (fun s call => (s.perform first call).1) s'
    (call.awaits = true → s''.chain.toList ≠ []) → ∃ r, (s''.perform first call).2 = some r

theorem quiet_foldl {s : Shared α} (h : s.chain.Quiet) (init : σ) (calls : List (Call σ α)) :
    (calls.foldl (fun s call => (s.perform init call).1) s).chain.Quiet := by
  induction calls generalizing s with
  | nil => exact h
  | cons call calls ih => exact ih (Shared.perform_quiet init h call).1

theorem perform_removal {s : Shared α} (h : s.chain.Quiet) (init : σ) {call : Call σ α} {ask : Ask σ α}
    {limit : Option Nat} (hcall : call.removal? = some (ask, limit)) : ∃ s' vs state result,
      s.perform init call = (s', some (call.concludes result state)) ∧ Removal ask limit init s s' vs state result := by
  obtain ⟨reply, hstart, hreply⟩ := start_removal init s hcall
  obtain ⟨vs, state, result, k, hsweep, hwhole⟩ := sweep_whole ask limit s.chain init
  have hlands := Job.walk_lands s.flags s.now h (.remove ask limit) init reply
  rw [hwhole, hreply, removedOf_ofResult] at hlands
  refine ⟨_, vs, state, result, Shared.perform_of_lands hstart hlands, hsweep, swept_scrapAll h hsweep.places,
    ⟨rfl, rfl⟩, ?_⟩
  intro τ first before call s'' hw
  have hq : s''.chain.Quiet := quiet_foldl (quiet_scrapAll h _) first before
  refine Shared.perform_replies first hq call fun ha hl => hw ha ?_
  rw [hq.toList_eq, hl]
  rfl

/-- What a question writes down that it was asked about is what was visited. -/
theorem perform_logging {s : Shared α} (h : s.chain.Quiet) (init : σ) (ask : Ask σ α) (limit : Option Nat) :
    ∃ s' vs state result, s.perform (init, []) (.removeWhere (logging ask) limit) =
        (s', some (.removed result (state, vs.map (·.item)))) ∧
      Removal (logging ask) limit (init, []) s s' vs (state, vs.map (·.item)) result := by
  have hcall : (Call.removeWhere (logging ask) limit).removal? = some (logging ask, limit) := rfl
  obtain ⟨s', vs, ⟨state, asked⟩, result, hp, hr⟩ := perform_removal h (init, []) hcall
  obtain rfl : asked = vs.map (·.item) := hr.sweep.asked.log
  exact ⟨s', vs, state, result, hp, hr⟩

/-- Whatever calls there have been of a queue, once none is under way a removal goes through it in order, up to its
    limit or to where its question breaks off, and removes what it was told to. -/
theorem removals_sweep (n m : Nat) (es : List (Traffic.Event σ α)) (hrest : ((Traffic.start n m).run es).Resting)
    (init : τ) (call : Call τ α) (ask : Ask τ α) (limit : Option Nat) (hcall : call.removal? = some (ask, limit)) :
    ∃ s' vs state result,
      ((Traffic.start n m).run es).shared.perform init call = (s', some (call.concludes result state)) ∧
        Removal ask limit init ((Traffic.start n m).run es).shared s' vs state result := by
  have hrun := Traffic.run_keeps Traffic.sentinel_step (t := Traffic.start n m) ⟨Traffic.records_start n m, rfl⟩ es
  exact perform_removal (hrun.1.custody.quiet hrun.2 hrest.idle) init hcall

/-- Of six elements the first is taken; the question counts its visits, and breaks off at the fifth element. -/
theorem removals_sweep_six :
    let ask : Ask Nat Nat := fun s a => (s + 1, if a = 5 then .error .predicate else .ok (a % 2 == 0))
    let es : List (Traffic.Event Unit Nat) := .begin 0 () (.addAll [1, 2, 3, 4, 5, 6]) :: .replicate 24 (.turn 0) ++
      .begin 1 () .poll :: .replicate 12 (.turn 1)
    let t := (Traffic.start 2 0).run es
    t.Resting ∧ (Call.removeWhere ask (some 3)).removal? = some (ask, some 3) ∧
      (∃ s' vs state result, t.shared.perform 0 (.removeWhere ask (some 3)) = (s', some (.removed result state)) ∧
        Removal ask (some 3) 0 t.shared s' vs state result) ∧
      (t.shared.perform 0 (.removeWhere ask (some 3))).1.chain.toList = [3, 5, 6] := by
  intro ask es t
  have hover : t.calls.all (fun u => u.all fun u => u.job?.isNone) = true := by decide +kernel
  have hrest : t.Resting := by
    intro k u hk
    have hu : u.job?.isNone = true := List.all_eq_true.mp hover _ (List.mem_of_getElem? hk)
    rcases u with ⟨call, j | r⟩
    · cases hu
    · exact ⟨r, rfl⟩
  exact ⟨hrest, rfl, removals_sweep 2 0 es hrest 0 (.removeWhere ask (some 3)) ask (some 3) rfl, by decide +kernel⟩

end BusyWait
