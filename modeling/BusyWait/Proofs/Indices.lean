import Mathlib.Data.Int.CardIntervalMod
import BusyWait.LockStep.Indices

/-
  BusyWait.Proofs.Indices — whose index is whose.

  A thread that ends and comes back under its old name is another holder than before, and
  each call for a fresh index is a holder of its own. The log keeps every operation with
  its holder and with the index that was drawn for it, if one was.

  - `countP_slot_range'`: how many of consecutive numbers fall on one slot.
  - `Held`: every holder has drawn at most once, and a thread keeps what its present life
    has drawn.
  - `indices_numbered`: indices are drawn in order, no two holders share one, and they
    fall evenly on slots.
-/

namespace BusyWait.LockStep.Indices

/-! ## Consecutive numbers on slots -/

theorem countP_range' (p : Nat → Prop) [DecidablePred p] (a k : Nat) :
    Nat.count p a + (List.range' a k).countP p = Nat.count p (a + k) := by
  induction k with
  | zero => rfl
  | succ k ih =>
    rw [List.range'_concat, List.countP_append, Nat.one_mul, ← Nat.add_assoc, ih, ← Nat.add_assoc, Nat.count_succ]
    by_cases h : p (a + k) <;> simp [h]

theorem countP_slot_range' {len s : Nat} (hs : s < len) (a k : Nat) :
    a / len + (if s < a % len then 1 else 0) + (List.range' a k).countP (· % len = s) =
      (a + k) / len + if s < (a + k) % len then 1 else 0 := by
  have hmod (m : Nat) : m % len = s ↔ m ≡ s [MOD len] := by rw [Nat.ModEq, Nat.mod_eq_of_lt hs]
  have hcount (b : Nat) : Nat.count (· % len = s) b = b / len + if s < b % len then 1 else 0 := by
    simp only [hmod, Nat.count_modEq_card b (Nat.zero_lt_of_lt hs) s, Nat.mod_eq_of_lt hs]
  rw [← hcount, ← hcount, countP_range']

/-- Of consecutive numbers no slot has two more than another. -/
theorem countP_slot_le {len s s' : Nat} (hs : s < len) (hs' : s' < len) (a k : Nat) :
    (List.range' a k).countP (· % len = s) ≤ (List.range' a k).countP (· % len = s') + 1 := by
  have h := countP_slot_range' hs a k
  have h' := countP_slot_range' hs' a k
  split at h <;> split at h <;> split at h' <;> split at h' <;> omega

theorem countP_slot_full {len s : Nat} (hs : s < len) (a : Nat) :
    (List.range' a len).countP (· % len = s) = 1 := by
  have h := countP_slot_range' hs a len
  rw [Nat.add_div_right _ (Nat.zero_lt_of_lt hs), Nat.add_mod_right] at h
  omega

/-! ## Holders -/

/-- Who an index is for: a thread in one of its lives, or one call for a fresh index. -/
inductive Holder where
  | thread (t : Thread) (life : Nat)
  | call (k : Nat)
  deriving DecidableEq

structure Entry where
  thread : Thread
  op : Op
  holder : Holder
  reply : Reply
  /-- The index that the counter gave out at the operation. -/
  drawn : Option Index

/-- How often the thread has ended. -/
def lives (log : List Entry) (t : Thread) : Nat := log.countP fun e => e.thread == t && e.op == .exit

def holder (log : List Entry) (t : Thread) : Op → Holder
  | .next => .call log.length
  | _ => .thread t (lives log t)

/-- What the counter gave out between two states of it. -/
def gone (r r' : Registry) : Option Index := if r'.next = r.next then none else some ⟨r.next⟩

structure History where
  team : Team
  log : List Entry

namespace History

/-- Nobody is alive, and the counter is at `c`. -/
def start (c : UInt64) : History := ⟨{ Team.start with registry := .start c }, []⟩

def step (h : History) (t : Thread) (op : Op) : History :=
  let (m, r) := Indices.step h.team t op
  ⟨m, h.log ++ [⟨t, op, holder h.log t op, r, gone h.team.registry m.registry⟩]⟩

def run (h : History) : List (Thread × Op) → History
  | [] => h
  | (t, op) :: ops => (h.step t op).run ops

end History

/-- The replies of a history are those of the run. -/
theorem History.run_replies (h : History) (ops : List (Thread × Op)) :
    (h.run ops).log.map (·.reply) = h.log.map (·.reply) ++ Indices.run h.team ops := by
  induction ops generalizing h with
  | nil => simp [History.run, Indices.run]
  | cons e ops ih =>
    obtain ⟨t, op⟩ := e
    show ((h.step t op).run ops).log.map _ = _
    rw [ih]
    simp [History.step, Indices.run]

/-- All that was drawn, in order, and for whom. -/
def gifts (log : List Entry) : List (Holder × Index) := log.filterMap fun e => e.drawn.map (e.holder, ·)

def drawn (log : List Entry) : List Index := log.filterMap (·.drawn)

/-- Whether an operation needs the index of its holder. -/
def Op.asks : Op → Bool
  | .get | .next | .ownSlot _ => true
  | _ => false

/-- The reply of an operation that needs an index and has `i`. -/
def Op.answer (i : Index) : Op → Reply
  | .ownSlot len => slotReply (i.slot? len)
  | _ => .index i

theorem gifts_map_snd (log : List Entry) : (gifts log).map (·.2) = drawn log := by
  simp only [gifts, drawn, List.map_filterMap]
  refine List.filterMap_congr ?_
  intro e _
  cases e.drawn <;> rfl

/-! ## One operation -/

/-- What an operation of thread `t` does to the counter and the indices that threads keep,
and what comes back. -/
inductive Turn (r : Registry) (t : Thread) (op : Op) : Registry → Reply → Prop
  | next (h : op = .next) : Turn r t op r.draw.1 (op.answer r.draw.2)
  /-- The thread needs its index for the first time. -/
  | first (h : op.asks = true) (hn : op ≠ .next) (hk : r.kept.get? t = none) :
      Turn r t op { r.draw.1 with kept := r.kept.set t r.draw.2 } (op.answer r.draw.2)
  | again (h : op.asks = true) (hn : op ≠ .next) {i : Index} (hk : r.kept.get? t = some i) :
      Turn r t op r (op.answer i)
  | ends (h : op = .exit) (b : Bool) : Turn r t op (r.exit t) (.flag b)
  /-- There is no such thread. -/
  | absent (h : op = .exit) (hk : r.kept.get? t = none) (b : Bool) : Turn r t op r (.flag b)
  | other (h : op.asks = false) (he : op ≠ .exit) {a : Reply} : Turn r t op r a

theorem turn_index {r : Registry} {t : Thread} (op : Op) (h : op.asks = true) (hn : op ≠ .next) :
    Turn r t op (r.get t).1 (op.answer (r.get t).2) := by
  unfold Registry.get
  cases hk : r.kept.get? t with
  | some i => exact .again h hn hk
  | none => exact .first h hn hk

theorem turn_step {m : Team} {t : Thread} (hm : t ∉ m.alive → m.registry.kept.get? t = none) (op : Op) :
    Turn m.registry t op (step m t op).1.registry (step m t op).2 := by
  cases op with
  | get => exact turn_index .get rfl (by decide)
  | ownSlot len => exact turn_index (.ownSlot len) rfl (by simp)
  | next => exact .next rfl
  | exit =>
    show Turn _ _ _ (m.exit t).1.registry (.flag (m.exit t).2)
    unfold Team.exit
    split
    · exact .ends rfl true
    · next ha => exact .absent rfl (hm (by simpa using ha)) false
  | _ => exact .other rfl (by simp)

/-- Only a thread that is alive keeps an index. -/
theorem kept_alive_step {m : Team} (hm : ∀ u ∉ m.alive, m.registry.kept.get? u = none) (t : Thread) (op : Op)
    {u : Thread} (hu : u ∉ (step m t op).1.alive) : (step m t op).1.registry.kept.get? u = none := by
  by_cases hop : op = .exit
  · subst hop
    change u ∉ (m.exit t).1.alive at hu
    show (m.exit t).1.registry.kept.get? u = none
    unfold Team.exit at hu ⊢
    split at hu
    · next ha =>
      rw [if_pos ha]
      show (m.registry.kept.erase t).get? u = none
      by_cases htu : t = u
      · rw [Table.get?_erase, if_pos htu]
      · rw [Table.get?_erase, if_neg htu]
        exact hm u fun h => hu ((List.mem_erase_of_ne (Ne.symm htu)).mpr h)
    · next ha =>
      rw [if_neg ha]
      exact hm u hu
  · have halive : (step m t op).1.alive = m.alive.insert t := by
      unfold step
      rw [if_neg hop]
      cases op <;> first | rfl | exact absurd rfl hop
    rw [halive, List.mem_insert_iff, not_or] at hu
    have hk := hm u hu.2
    have hturn := turn_step (hm t) op
    generalize (step m t op).1.registry = r, (step m t op).2 = a at hturn ⊢
    cases hturn with
    | first _ _ _ =>
      show (m.registry.kept.set t _).get? u = none
      rw [Table.get?_set, if_neg (Ne.symm hu.1), hk]
    | ends h b => exact absurd h hop
    | _ => exact hk

/-! ## The history -/

theorem lives_append (log : List Entry) (e : Entry) (u : Thread) :
    lives (log ++ [e]) u = lives log u + if e.thread = u ∧ e.op = .exit then 1 else 0 := by
  by_cases h : e.thread = u ∧ e.op = .exit
  · simp [lives, h]
  · rw [if_neg h]
    simp only [lives, List.countP_append, List.countP_singleton]
    simpa using h

theorem gifts_append (log : List Entry) (e : Entry) :
    gifts (log ++ [e]) = gifts log ++ (e.drawn.map (e.holder, ·)).toList := by
  simp only [gifts, List.filterMap_append]
  cases h : e.drawn <;> simp [h]

theorem drawn_append (log : List Entry) (e : Entry) : drawn (log ++ [e]) = drawn log ++ e.drawn.toList := by
  simp only [drawn, List.filterMap_append]
  cases h : e.drawn <;> simp [h]

theorem holder_of_ne {op : Op} (h : op ≠ .next) (log : List Entry) (t : Thread) :
    holder log t op = .thread t (lives log t) := by
  cases op <;> first | rfl | exact absurd rfl h

/-- The first `n` numbers from `c` on. -/
def firstOf (c : UInt64) (n : Nat) : List Index := (List.range n).map fun k => ⟨c + .ofNat k⟩

theorem firstOf_succ (c : UInt64) (n : Nat) : firstOf c (n + 1) = firstOf c n ++ [⟨c + .ofNat n⟩] := by
  simp [firstOf, List.range_succ]

theorem next_ne (c : UInt64) : c + 1 ≠ c := by simp

theorem gone_draw (r : Registry) : gone r r.draw.1 = some ⟨r.next⟩ := if_neg (next_ne r.next)

/-- What is known of a history that began with the counter at `c`. -/
structure Held (c : UInt64) (h : History) : Prop where
  drawn : drawn h.log = firstOf c (drawn h.log).length
  counter : h.team.registry.next = c + .ofNat (Indices.drawn h.log).length
  alive : ∀ u ∉ h.team.alive, h.team.registry.kept.get? u = none
  /-- A thread keeps what its present life has drawn. -/
  kept : ∀ {u i}, h.team.registry.kept.get? u = some i ↔ (.thread u (lives h.log u), i) ∈ gifts h.log
  once : ((gifts h.log).map (·.1)).Nodup
  life : ∀ {u l i}, (.thread u l, i) ∈ gifts h.log → l ≤ lives h.log u
  call : ∀ {k i}, (.call k, i) ∈ gifts h.log → k < h.log.length
  answered : ∀ e ∈ h.log, e.op.asks = true → ∃ i, (e.holder, i) ∈ gifts h.log ∧ e.reply = e.op.answer i
  asked : ∀ e ∈ h.log, ∀ i, e.drawn = some i → e.op.asks = true
  /-- An index is drawn where one is needed for the first time. -/
  first : ∀ {pre e post}, h.log = pre ++ e :: post →
    (e.drawn.isSome = true ↔ e.op.asks = true ∧ ∀ e' ∈ pre, e'.op.asks = true → e'.holder ≠ e.holder)

theorem held_start (c : UInt64) : Held c (.start c) where
  drawn := rfl
  counter := (UInt64.add_zero c).symm
  alive _ _ := rfl
  kept := by simp [History.start, gifts, Registry.start]
  once := List.nodup_nil
  life h := absurd h (List.not_mem_nil)
  call h := absurd h (List.not_mem_nil)
  answered _ h := absurd h List.not_mem_nil
  asked _ h := absurd h List.not_mem_nil
  first h := by simp [History.start] at h

section
variable {c : UInt64} {h : History} (hh : Held c h)
include hh

/-- Every index given to a holder answered one of its operations. -/
theorem Held.gift_asked {hd : Holder} {i : Index} (hi : (hd, i) ∈ gifts h.log) :
    ∃ e ∈ h.log, e.op.asks = true ∧ e.holder = hd := by
  obtain ⟨e, he, hd⟩ := List.mem_filterMap.mp hi
  obtain ⟨j, hj, hp⟩ := Option.map_eq_some_iff.mp hd
  exact ⟨e, he, hh.asked e he j hj, congrArg Prod.fst hp⟩

/-- The last entry is the one in question, or its successors go on to it. -/
theorem Held.first_append {e : Entry}
    (he : e.drawn.isSome = true ↔ e.op.asks = true ∧ ∀ e' ∈ h.log, e'.op.asks = true → e'.holder ≠ e.holder)
    {pre post : List Entry} {x : Entry} (hx : h.log ++ [e] = pre ++ x :: post) :
    x.drawn.isSome = true ↔ x.op.asks = true ∧ ∀ e' ∈ pre, e'.op.asks = true → e'.holder ≠ x.holder := by
  rcases post.eq_nil_or_concat with rfl | ⟨post, y, rfl⟩
  · obtain ⟨rfl, hy⟩ := List.append_inj' hx rfl
    obtain rfl : e = x := List.singleton_inj.mp hy
    exact he
  · have hx' : h.log ++ [e] = (pre ++ x :: post) ++ [y] := by simpa using hx
    exact hh.first (List.append_inj' hx' rfl).1

theorem Held.life_append {u : Thread} {l : Nat} {i : Index} (hi : (.thread u l, i) ∈ gifts h.log) (e : Entry) :
    l ≤ lives (h.log ++ [e]) u := by
  rw [lives_append]
  exact Nat.le_add_right_of_le (hh.life hi)

/-- An operation for which nothing is drawn. -/
theorem Held.quiet {m : Team} {e : Entry} (hd : e.drawn = none) (hnext : m.registry.next = h.team.registry.next)
    (halive : ∀ u ∉ m.alive, m.registry.kept.get? u = none)
    (hkept : ∀ u i, m.registry.kept.get? u = some i ↔ (.thread u (lives (h.log ++ [e]) u), i) ∈ gifts h.log)
    (hasks : e.op.asks = true → ∃ i, (e.holder, i) ∈ gifts h.log ∧ e.reply = e.op.answer i) :
    Held c ⟨m, h.log ++ [e]⟩ := by
  have hgifts : gifts (h.log ++ [e]) = gifts h.log := by rw [gifts_append, hd]; exact List.append_nil _
  have hdrawn : Indices.drawn (h.log ++ [e]) = Indices.drawn h.log := by
    rw [drawn_append, hd]; exact List.append_nil _
  refine ⟨?_, ?_, halive, ?_, ?_, ?_, ?_, ?_, ?_, ?_⟩
  · simpa only [hdrawn] using hh.drawn
  · simpa only [hdrawn, hnext] using hh.counter
  · intro u i
    simpa only [hgifts] using hkept u i
  · simpa only [hgifts] using hh.once
  · intro u l i hi
    rw [hgifts] at hi
    exact hh.life_append hi e
  · intro k i hi
    rw [hgifts] at hi
    have := hh.call hi
    simp only [List.length_append, List.length_singleton]
    omega
  · intro x hx hxa
    rw [hgifts]
    rcases List.mem_append.mp hx with hx | hx
    · exact hh.answered x hx hxa
    · obtain rfl := List.mem_singleton.mp hx
      exact hasks hxa
  · intro x hx i hi
    rcases List.mem_append.mp hx with hx | hx
    · exact hh.asked x hx i hi
    · obtain rfl := List.mem_singleton.mp hx
      rw [hd] at hi
      cases hi
  · intro pre x post hx
    refine hh.first_append ?_ hx
    rw [hd]
    refine ⟨fun hf => (by cases hf), ?_⟩
    rintro ⟨ha, hall⟩
    obtain ⟨i, hi, -⟩ := hasks ha
    obtain ⟨e', he', ha', hhd⟩ := hh.gift_asked hi
    exact absurd hhd (hall e' he' ha')

/-- An operation for which an index is drawn, by a holder that had none. -/
theorem Held.drew {m : Team} {e : Entry} (hd : e.drawn = some ⟨h.team.registry.next⟩)
    (hnext : m.registry.next = h.team.registry.next + 1) (halive : ∀ u ∉ m.alive, m.registry.kept.get? u = none)
    (hkept : ∀ u i, m.registry.kept.get? u = some i ↔
      (.thread u (lives h.log u), i) ∈ gifts h.log ++ [(e.holder, ⟨h.team.registry.next⟩)])
    (hasks : e.op.asks = true) (hreply : e.reply = e.op.answer ⟨h.team.registry.next⟩)
    (hfresh : ∀ i, (e.holder, i) ∉ gifts h.log)
    (hhd : e.holder = .thread e.thread (lives h.log e.thread) ∨ e.holder = .call h.log.length) :
    Held c ⟨m, h.log ++ [e]⟩ := by
  have hgifts : gifts (h.log ++ [e]) = gifts h.log ++ [(e.holder, ⟨h.team.registry.next⟩)] := by
    rw [gifts_append, hd]; rfl
  have hdrawn : Indices.drawn (h.log ++ [e]) = Indices.drawn h.log ++ [⟨h.team.registry.next⟩] := by
    rw [drawn_append, hd]; rfl
  have hlives (u : Thread) : lives (h.log ++ [e]) u = lives h.log u := by
    have hop : e.op ≠ .exit := by
      intro hop
      rw [hop] at hasks
      cases hasks
    rw [lives_append, if_neg fun hc => hop hc.2, Nat.add_zero]
  refine ⟨?_, ?_, halive, ?_, ?_, ?_, ?_, ?_, ?_, ?_⟩
  · show Indices.drawn (h.log ++ [e]) = _
    rw [hdrawn, List.length_append, List.length_singleton, firstOf_succ, ← hh.drawn, hh.counter]
  · show _ = c + .ofNat (Indices.drawn (h.log ++ [e])).length
    rw [hdrawn, hnext, hh.counter, List.length_append, List.length_singleton, UInt64.ofNat_add, UInt64.add_assoc]
    rfl
  · intro u i
    simpa only [hgifts, hlives] using hkept u i
  · show ((gifts (h.log ++ [e])).map (·.1)).Nodup
    rw [hgifts, List.map_append, List.nodup_append]
    refine ⟨hh.once, List.nodup_singleton _, ?_⟩
    rintro hd' hmem _ hlast rfl
    obtain ⟨⟨_, i⟩, hi, rfl⟩ := List.mem_map.mp hmem
    obtain rfl := List.mem_singleton.mp hlast
    exact hfresh i hi
  · intro u l i hi
    rw [hgifts] at hi
    show l ≤ lives (h.log ++ [e]) u
    rcases List.mem_append.mp hi with hi | hi
    · exact hh.life_append hi e
    · have hhold : e.holder = .thread u l := (congrArg Prod.fst (List.mem_singleton.mp hi)).symm
      rw [hlives]
      rcases hhd with hhd | hhd
      · rw [hhold] at hhd
        cases hhd
        exact Nat.le_refl _
      · rw [hhold] at hhd
        cases hhd
  · intro k i hi
    rw [hgifts] at hi
    show k < (h.log ++ [e]).length
    simp only [List.length_append, List.length_singleton]
    rcases List.mem_append.mp hi with hi | hi
    · exact Nat.lt_succ_of_lt (hh.call hi)
    · have hhold : e.holder = .call k := (congrArg Prod.fst (List.mem_singleton.mp hi)).symm
      rcases hhd with hhd | hhd
      · rw [hhold] at hhd
        cases hhd
      · rw [hhold] at hhd
        cases hhd
        exact Nat.lt_succ_self _
  · intro x hx hxa
    rw [hgifts]
    rcases List.mem_append.mp hx with hx | hx
    · obtain ⟨i, hi, hr⟩ := hh.answered x hx hxa
      exact ⟨i, List.mem_append_left _ hi, hr⟩
    · obtain rfl := List.mem_singleton.mp hx
      exact ⟨_, List.mem_append_right _ List.mem_cons_self, hreply⟩
  · intro x hx i hi
    rcases List.mem_append.mp hx with hx | hx
    · exact hh.asked x hx i hi
    · obtain rfl := List.mem_singleton.mp hx
      exact hasks
  · intro pre x post hx
    refine hh.first_append ?_ hx
    rw [hd]
    refine ⟨fun _ => ⟨hasks, ?_⟩, fun _ => rfl⟩
    intro e' he' ha' hsame
    obtain ⟨i, hi, -⟩ := hh.answered e' he' ha'
    exact hfresh i (hsame ▸ hi)

theorem Held.step (t : Thread) (op : Op) : Held c (h.step t op) := by
  have hturn := turn_step (hh.alive t) op
  have halive := fun u => kept_alive_step hh.alive t op (u := u)
  unfold History.step
  generalize Indices.step h.team t op = mr at hturn halive
  obtain ⟨m, a⟩ := mr
  dsimp only at hturn halive ⊢
  -- An operation other than an exit leaves the lives as they were.
  have hlives (e : Entry) (he : e.op ≠ .exit) (u : Thread) : lives (h.log ++ [e]) u = lives h.log u := by
    rw [lives_append, if_neg fun hc => he hc.2, Nat.add_zero]
  generalize hr : m.registry = r at hturn
  cases hturn with
  | next hop =>
    subst hop
    refine hh.drew ?_ (by rw [hr]; rfl) halive ?_ rfl rfl ?_ (.inr rfl)
    · exact gone_draw _
    · intro u i
      rw [hr]
      refine hh.kept.trans ?_
      simp [holder]
    · intro i hi
      exact absurd (hh.call hi) (Nat.lt_irrefl _)
  | first ha hn hk =>
    have hhold := holder_of_ne hn h.log t
    refine hh.drew ?_ (by rw [hr]; rfl) halive ?_ ha rfl ?_ (.inl hhold)
    · exact gone_draw _
    · intro u i
      rw [hr]
      show (h.team.registry.kept.set t ⟨h.team.registry.next⟩).get? u = some i ↔ _
      rw [Table.get?_set]
      by_cases htu : t = u
      · subst htu
        have hnone (j : Index) : (.thread t (lives h.log t), j) ∉ gifts h.log := by
          intro hj
          rw [← hh.kept, hk] at hj
          cases hj
        simp [hhold, hnone, eq_comm]
      · rw [if_neg htu]
        refine hh.kept.trans ?_
        simp [hhold, Ne.symm htu]
    · intro i hi
      simp only [hhold] at hi
      rw [← hh.kept, hk] at hi
      cases hi
  | again ha hn hk =>
    have hne : op ≠ .exit := by rintro rfl; cases ha
    refine hh.quiet (if_pos rfl) (by rw [hr]) halive ?_ ?_
    · intro u i
      rw [hr, hlives _ hne]
      exact hh.kept
    · intro _
      refine ⟨_, ?_, rfl⟩
      simp only [holder_of_ne hn]
      exact hh.kept.mp hk
  | ends hop b =>
    subst hop
    refine hh.quiet (if_pos rfl) (by rw [hr]; rfl) halive ?_ (fun hf => by cases hf)
    intro u i
    rw [hr]
    show (h.team.registry.kept.erase t).get? u = some i ↔ _
    rw [Table.get?_erase, lives_append]
    by_cases htu : t = u
    · subst htu
      simp only [if_true, reduceCtorEq, true_and, false_iff]
      intro hi
      have := hh.life hi
      omega
    · simp only [htu, if_false, false_and, Nat.add_zero]
      exact hh.kept
  | absent hop hk b =>
    subst hop
    refine hh.quiet (if_pos rfl) (by rw [hr]) halive ?_ (fun hf => by cases hf)
    intro u i
    rw [hr, lives_append]
    by_cases htu : t = u
    · subst htu
      simp only [hk, and_self, if_true, reduceCtorEq, false_iff]
      intro hi
      have := hh.life hi
      omega
    · simp only [htu, if_false, false_and, Nat.add_zero]
      exact hh.kept
  | other ha he =>
    refine hh.quiet (if_pos rfl) (by rw [hr]) halive ?_ (fun hf => absurd hf (by simp [ha]))
    intro u i
    rw [hr, hlives _ he]
    exact hh.kept

theorem Held.run (ops : List (Thread × Op)) : Held c (h.run ops) := by
  induction ops generalizing h with
  | nil => exact hh
  | cons e ops ih => exact ih (hh.step e.1 e.2)

end

/-! ## Without a wrap -/

theorem firstOf_toNat {c : UInt64} {n : Nat} (h : c.toNat + n ≤ 2 ^ 64) :
    (firstOf c n).map (·.raw.toNat) = List.range' c.toNat n := by
  rw [firstOf, List.map_map, List.range'_eq_map_range]
  refine List.map_congr_left ?_
  intro k hk
  have hk := List.mem_range.mp hk
  show (c + .ofNat k).toNat = c.toNat + k
  rw [UInt64.toNat_add, UInt64.toNat_ofNat', Nat.add_mod_mod, Nat.mod_eq_of_lt (by omega)]

/-- What holds of a log as long as the counter, once at `c`, has not wrapped. -/
structure Numbered (c : UInt64) (log : List Entry) : Prop where
  /-- The indices drawn are the numbers from `c` on, in order. -/
  inOrder : (drawn log).map (·.raw.toNat) = List.range' c.toNat (drawn log).length
  once : (drawn log).Nodup
  /-- One is drawn exactly where a holder needs it for the first time. -/
  first : ∀ {pre e post}, log = pre ++ e :: post →
    (e.drawn.isSome = true ↔ e.op.asks = true ∧ ∀ e' ∈ pre, e'.op.asks = true → e'.holder ≠ e.holder)
  /-- Every operation that needs an index has the one drawn for its holder. -/
  answered : ∀ e ∈ log, e.op.asks = true → ∃ i, (e.holder, i) ∈ gifts log ∧ e.reply = e.op.answer i
  /-- No holder has two indices and no two holders have one. -/
  apart : ∀ {hd hd' i i'}, (hd, i) ∈ gifts log → (hd', i') ∈ gifts log → (hd = hd' ↔ i = i')
  /-- No slot gets two more of the indices drawn one after another than another slot. -/
  even : ∀ {len s s' : Nat}, s < len → s' < len → ∀ {is : List Index}, is <:+: drawn log →
    is.countP (·.slot len = s) ≤ is.countP (·.slot len = s') + 1
  /-- As many of them as there are slots occupy every slot. -/
  full : ∀ {len s : Nat}, s < len → ∀ {is : List Index}, is <:+: drawn log → is.length = len →
    ∃ i ∈ is, i.slot len = s

/-- A stretch of consecutive draws is a stretch of consecutive numbers. -/
theorem infix_inOrder {c : Nat} {js is : List Index} (h : js.map (·.raw.toNat) = List.range' c js.length)
    (his : is <:+: js) : ∃ a, is.map (·.raw.toNat) = List.range' a is.length := by
  obtain ⟨pre, post, rfl⟩ := his
  rw [List.map_append, List.map_append, eq_comm, List.range'_eq_append_iff] at h
  obtain ⟨k, -, hpre, -⟩ := h
  rw [eq_comm, List.range'_eq_append_iff] at hpre
  obtain ⟨a, ha, -, his⟩ := hpre
  have hlen : is.length = k - a := by simpa using congrArg List.length his
  rw [hlen]
  exact ⟨_, his⟩

theorem countP_slot (len s : Nat) (is : List Index) :
    is.countP (·.slot len = s) = (is.map (·.raw.toNat)).countP (· % len = s) := by
  rw [List.countP_map]
  rfl

theorem Held.apart {c : UInt64} {h : History} (hh : Held c h) (hn : (Indices.drawn h.log).Nodup)
    {hd hd' : Holder} {i i' : Index} (hi : (hd, i) ∈ gifts h.log) (hi' : (hd', i') ∈ gifts h.log) :
    hd = hd' ↔ i = i' := by
  rw [← gifts_map_snd] at hn
  constructor
  · rintro rfl
    exact congrArg Prod.snd (List.inj_on_of_nodup_map hh.once hi hi' rfl)
  · rintro rfl
    exact congrArg Prod.fst (List.inj_on_of_nodup_map hn hi hi' rfl)

/-- Whatever threads do, as long as the counter does not wrap: indices are drawn in order from
where it began, each for one holder, who has it from its first need on, and consecutive ones
fall evenly on any number of slots. What is logged are the replies of the program's run. -/
theorem indices_numbered (c : UInt64) (ops : List (Thread × Op))
    (hwrap : c.toNat + (drawn ((History.start c).run ops).log).length ≤ 2 ^ 64) :
    Numbered c ((History.start c).run ops).log ∧
      ((History.start c).run ops).log.map (·.reply) = Indices.run (History.start c).team ops := by
  refine ⟨?_, (History.start c).run_replies ops⟩
  have hh := (held_start c).run ops
  generalize (History.start c).run ops = h at hh hwrap
  have horder : (drawn h.log).map (·.raw.toNat) = List.range' c.toNat (drawn h.log).length := by
    conv_lhs => rw [hh.drawn]
    exact firstOf_toNat hwrap
  have hnodup : (drawn h.log).Nodup := by
    refine List.Nodup.of_map (·.raw.toNat) ?_
    rw [horder]
    exact List.nodup_range'
  refine ⟨horder, hnodup, hh.first, hh.answered, hh.apart hnodup, ?_, ?_⟩
  · intro len s s' hs hs' is his
    obtain ⟨a, ha⟩ := infix_inOrder horder his
    rw [countP_slot, countP_slot, ha]
    exact countP_slot_le hs hs' a _
  · intro len s hs is his hlen
    obtain ⟨a, ha⟩ := infix_inOrder horder his
    have hone : 0 < is.countP (·.slot len = s) := by
      rw [countP_slot, ha, hlen, countP_slot_full hs a]
      exact Nat.one_pos
    simpa using List.countP_pos_iff.mp hone

/-- Thread 1 comes back for the last index before the wrap. -/
theorem indices_numbered_reused :
    let ops : List (Thread × Op) := [(1, .get), (2, .next), (1, .get), (1, .exit), (1, .ownSlot 4), (1, .get)]
    (drawn ((History.start (.ofNat (2 ^ 64 - 3))).run ops).log).map (·.raw) =
      [.ofNat (2 ^ 64 - 3), .ofNat (2 ^ 64 - 2), .ofNat (2 ^ 64 - 1)] ∧
    Numbered (.ofNat (2 ^ 64 - 3)) ((History.start (.ofNat (2 ^ 64 - 3))).run ops).log :=
  ⟨by decide, (indices_numbered _ _ (by decide)).1⟩

end BusyWait.LockStep.Indices
