import BusyWait.Proofs.Crowd
import BusyWait.Queue.Pop
import BusyWait.Queue.Walk

/-
  BusyWait.Proofs.Queue.Crew — any number of threads around one chain.

  A thread that is in no call may begin to push, to pop or to walk, from the head or from
  wherever an iterator has got to. Each event begins a call or makes one access of one
  call, so the runs are the interleavings of the accesses; what is not possible leaves
  all as it was, and every list of events is a run. A call whose claim has broken off
  (`Pop.lost`, `Stage.lost`) is never over: its thread stays in it, and the element counts
  as claimed by it.

  `log` keeps the accesses that decide something, each with its thread, in the order in
  which they were made: a node is linked, the head moves onto it, its claim is through
  (the claimer has found nobody inside), its element is given out or dropped (`deed?`).

  `step_keeps`: what the beginning of a call and one access keep, every event keeps.
-/

namespace BusyWait

/-- A call in progress. -/
inductive Act (σ α : Type) where
  | push (p : Push α)
  | pop (p : Pop)
  | walk (aim : Aim σ α) (w : Walk σ α)

/-- What an access decides about a node. -/
inductive Deed (α : Type) where
  | linked (node : Nat) (a : α)
  /-- The head has moved onto it. -/
  | passed (node : Nat)
  | claimed (node : Nat)
  | returned (node : Nat) (a : α)
  | dropped (node : Nat)
  deriving DecidableEq, Repr

namespace Act

variable {σ α : Type}

/-- What is left of a call after an access. -/
def onward {τ ρ : Type} (f : τ → Act σ α) : Progress τ ρ → Option (Act σ α)
  | .more t => some (f t)
  | .done _ => none

def step (c : Chain α) : Act σ α → Chain α × Option (Act σ α)
  | .push p => ((p.step c).1, onward .push (p.step c).2)
  | .pop p => ((p.step c).1, onward .pop (p.step c).2)
  | .walk aim w => ((w.step aim c).1, onward (.walk aim) (w.step aim c).2)

/-- What the next access decides: told by where the call is, and by what the access leaves of it. -/
def deed? (c : Chain α) : Act σ α → Option (Deed α)
  | .push p =>
    match p, (p.step c).2 with
    | .link a _, .more (.swing _ n) => some (.linked n a)
    | _, _ => none
  | .pop p =>
    match p, (p.step c).2 with
    | .moveHead _ n, .more (.readTail _ _) => some (.passed n)
    | .drain n _, .more (.take _) => some (.claimed n)
    | .take n, .done (.ok (some a)) => some (.returned n a)
    | _, _ => none
  | .walk aim w =>
    match w.stage, (w.step aim c).2 with
    | .drain _, .more ⟨.drop, n, _, _⟩ => some (.claimed n)
    | .drop, .more w' => some (.dropped w'.cursor)
    | .drop, .done ⟨n, _, .removed _⟩ => some (.dropped n)
    | _, _ => none

theorem deed?_link (c : Chain α) (a : α) (t : Nat) : (.push (.link a t) : Act σ α).deed? c =
    if (c.node t).next = none then some (.linked c.nodes.size a) else none := by
  unfold deed?
  by_cases h : (c.node t).next = none <;> simp [Push.step, h]

theorem deed?_moveHead (c : Chain α) (h n : Nat) : (.pop (.moveHead h n) : Act σ α).deed? c =
    if c.head = h then some (.passed n) else none := by
  unfold deed?
  by_cases hh : c.head = h <;> simp [Pop.step, hh]

theorem deed?_drain (c : Chain α) (n : Nat) (d : Drain) : (.pop (.drain n d) : Act σ α).deed? c =
    if (c.node n).word = .owned then some (.claimed n) else none := by
  unfold deed?
  by_cases h : (c.node n).word = .owned
  · simp [Pop.step_drain_owned h, h]
  · rcases Pop.step_drain_busy h d with ⟨d', hd⟩ | hd <;> simp [hd, h]

theorem deed?_take (c : Chain α) (n : Nat) : (.pop (.take n) : Act σ α).deed? c =
    (c.node n).slot.element?.map (.returned n ·) := by
  unfold deed?
  cases h : (c.node n).slot <;> simp [Pop.step, h, Slot.element?]

theorem deed?_walk_drain (c : Chain α) (aim : Aim σ α) (d : Drain) (n : Nat) (s : σ) (m : Nat) :
    (.walk aim ⟨.drain d, n, s, m⟩ : Act σ α).deed? c =
      if (c.node n).word = .owned then some (.claimed n) else none := by
  unfold deed?
  by_cases h : (c.node n).word = .owned
  · simp [Walk.step_drain_owned aim d s m h, h]
  · rcases Walk.step_drain_busy aim d s m h with ⟨d', hd⟩ | hd <;> simp [hd, h]

theorem deed?_walk_drop (c : Chain α) (aim : Aim σ α) (n : Nat) (s : σ) (m : Nat) :
    (.walk aim ⟨.drop, n, s, m⟩ : Act σ α).deed? c = (c.node n).slot.element?.map fun _ => .dropped n := by
  unfold deed?
  cases h : (c.node n).slot with
  | holds a =>
    cases hm : (⟨.seek, n, s, m + 1⟩ : Walk σ α).sated aim with
    | false => simp [Walk.step, h, hm, Slot.element?]
    | true =>
      -- only a removal can have had enough
      cases aim with
      | copy => cases hm
      | find ask => cases hm
      | remove ask limit => simp [Walk.step, h, hm, Slot.element?, Walk.finish, Walk.atEnd]
  | never => simp [Walk.step, h, Slot.element?, Walk.finish]
  | moved => simp [Walk.step, h, Slot.element?, Walk.finish]
  | dropped => simp [Walk.step, h, Slot.element?, Walk.finish]

/-- Walks decide about no link and no move of the head. -/
theorem deed?_walk (c : Chain α) (aim : Aim σ α) (w : Walk σ α) : (.walk aim w : Act σ α).deed? c = none ∨
    ∃ n, (.walk aim w : Act σ α).deed? c = some (.claimed n) ∨ (.walk aim w : Act σ α).deed? c = some (.dropped n) := by
  unfold deed?
  dsimp only
  split
  · exact .inr ⟨_, .inl rfl⟩
  · exact .inr ⟨_, .inr rfl⟩
  · exact .inr ⟨_, .inr rfl⟩
  · exact .inl rfl

end Act

/-- Threads around a chain, and what they have done to it. -/
structure Crew (σ α : Type) where
  chain : Chain α
  /-- Each thread's call in progress. -/
  threads : List (Option (Act σ α))
  /-- What the accesses have decided, and which thread's they were. -/
  log : List (Nat × Deed α)

namespace Crew

variable {σ α : Type}

/-- What a thread may begin. -/
inductive Errand (σ α : Type) where
  | push (a : α)
  | pop
  /-- To look for, to remove or to copy elements, from the head on. -/
  | walk (aim : Aim σ α) (init : σ)
  /-- The next step of an iterator that has got to `cursor`. -/
  | next (cursor : Nat) (init : σ)

def Errand.act : Errand σ α → Act σ α
  | .push a => .push (.readTail a)
  | .pop => .pop .readHead
  | .walk aim s => .walk aim (.start s)
  | .next cursor s => .walk .copy (.resume cursor s)

inductive Event (σ α : Type) where
  /-- Thread `k` begins a call. -/
  | begin (k : Nat) (e : Errand σ α)
  /-- The next access of thread `k`. -/
  | turn (k : Nat)

/-- `n` threads around an empty chain, and nobody in a call. -/
def start (n : Nat) : Crew σ α := ⟨.empty, .replicate n none, []⟩

def enlist (c : Crew σ α) (k : Nat) (v : Act σ α) : Crew σ α := { c with threads := c.threads.set k (some v) }

/-- The next access of thread `k`, which is in `v`. -/
def turn (c : Crew σ α) (k : Nat) (v : Act σ α) : Crew σ α :=
  ⟨(v.step c.chain).1, c.threads.set k (v.step c.chain).2, c.log ++ ((v.deed? c.chain).map (k, ·)).toList⟩

def step (c : Crew σ α) : Event σ α → Crew σ α
  | .begin k e =>
    match c.threads[k]? with
    | some none => c.enlist k e.act
    | _ => c
  | .turn k =>
    match c.threads[k]? with
    | some (some v) => c.turn k v
    | _ => c

def run (c : Crew σ α) (es : List (Event σ α)) : Crew σ α := es.foldl step c

@[simp] theorem run_cons (c : Crew σ α) (e : Event σ α) (es : List (Event σ α)) :
    c.run (e :: es) = (c.step e).run es := rfl

/-- What the beginning of a call and one access keep, every event keeps. -/
theorem step_keeps {P : Crew σ α → Prop} {c : Crew σ α} (h : P c)
    (hb : ∀ k (e : Errand σ α), c.threads[k]? = some none → P (c.enlist k e.act))
    (ht : ∀ k v, c.threads[k]? = some (some v) → P (c.turn k v)) (e : Event σ α) : P (c.step e) := by
  cases e with
  | begin k e =>
    simp only [step]
    split
    · rename_i hk
      exact hb k e hk
    · exact h
  | turn k =>
    simp only [step]
    split
    · rename_i hk
      exact ht k _ hk
    · exact h

/-- What every event keeps, every run keeps. -/
theorem run_keeps {P : Crew σ α → Prop} (hs : ∀ c e, P c → P (c.step e)) {c : Crew σ α} (h : P c)
    (es : List (Event σ α)) : P (c.run es) := by
  induction es generalizing c with
  | nil => exact h
  | cons e es ih => exact ih (hs c e h)

/-- What a thread is in once thread `k` is in `u`. -/
theorem thread_set {l : List (Option (Act σ α))} {j k : Nat} {u w : Option (Act σ α)}
    (h : (l.set k u)[j]? = some w) : j = k ∧ u = w ∨ l[j]? = some w := by
  rw [List.getElem?_set] at h
  by_cases hjk : k = j
  · rw [if_pos hjk] at h
    split at h
    · exact .inl ⟨hjk.symm, Option.some.inj h⟩
    · cases h
  · rw [if_neg hjk] at h
    exact .inr h

/-- Another thread's call stays where it is. -/
theorem mem_set_of_ne {l : List (Option (Act σ α))} {k : Nat} {u v w : Option (Act σ α)} (hk : l[k]? = some v)
    (hw : w ∈ l) (hne : w ≠ v) : w ∈ l.set k u := by
  obtain ⟨j, hj⟩ := List.mem_iff_getElem?.mp hw
  have hjk : k ≠ j := by
    rintro rfl
    exact hne (Option.some.inj (hj.symm.trans hk))
  refine List.mem_of_getElem? (i := j) ?_
  rw [List.getElem?_set_ne hjk, hj]

theorem mem_set_self {l : List (Option (Act σ α))} {k : Nat} {u v : Option (Act σ α)} (hk : l[k]? = some v) :
    u ∈ l.set k u :=
  List.mem_set (List.getElem?_eq_some_iff.mp hk).1 u

theorem forall_start {P : Act σ α → Prop} (n : Nat) : ∀ v, some v ∈ (start n : Crew σ α).threads → P v := by
  intro v hv
  cases List.eq_of_mem_replicate hv

/-- The log only grows. -/
theorem log_step (c : Crew σ α) (e : Event σ α) : c.log <+: (c.step e).log := by
  refine step_keeps (P := fun d => c.log <+: d.log) List.prefix_rfl ?_ ?_ e
  · intro k e _
    exact List.prefix_rfl
  · intro k v _
    exact List.prefix_append _ _

theorem log_run (c : Crew σ α) (es : List (Event σ α)) : c.log <+: (c.run es).log :=
  run_keeps (P := fun d => c.log <+: d.log) (fun d e h => h.trans (log_step d e)) List.prefix_rfl es

/-! ## Reading the log -/

/-- The deeds in which `f` sees something, with their threads, in the order in which they were done. -/
def logged {β : Type} (c : Crew σ α) (f : Deed α → Option β) : List (Nat × β) :=
  c.log.filterMap fun x => (f x.2).map (x.1, ·)

theorem logged_turn {β : Type} (c : Crew σ α) (f : Deed α → Option β) (k : Nat) (v : Act σ α) :
    (c.turn k v).logged f = c.logged f ++ (((v.deed? c.chain).bind f).map (k, ·)).toList := by
  rw [logged, logged, turn, List.filterMap_append]
  cases v.deed? c.chain with
  | none => rfl
  | some d => cases hf : f d <;> simp [hf]

theorem mem_logged {β : Type} {c : Crew σ α} {f : Deed α → Option β} {k : Nat} {b : β} :
    (k, b) ∈ c.logged f ↔ ∃ d, (k, d) ∈ c.log ∧ f d = some b := by
  simp only [logged, List.mem_filterMap, Prod.exists, Option.map_eq_some_iff, Prod.mk.injEq]
  constructor
  · rintro ⟨_, d, hd, _, hf, rfl, rfl⟩
    exact ⟨d, hd, hf⟩
  · rintro ⟨d, hd, hf⟩
    exact ⟨k, d, hd, b, hf, rfl, rfl⟩

end Crew

namespace Deed

variable {α : Type}

def link? : Deed α → Option (Nat × α)
  | .linked n a => some (n, a)
  | _ => none

def pass? : Deed α → Option Nat
  | .passed n => some n
  | _ => none

def return? : Deed α → Option (Nat × α)
  | .returned n a => some (n, a)
  | _ => none

end Deed

namespace Crew

variable {σ α : Type}

/-- The elements that were put in, in the order of the swaps that linked them: who linked each, its node and it. -/
def sent (c : Crew σ α) : List (Nat × Nat × α) := c.logged Deed.link?

/-- The moves of the head, in their order: whose each was, and the node that the head got to. -/
def passes (c : Crew σ α) : List (Nat × Nat) := c.logged Deed.pass?

/-- What pops have given out: who got it, its node and it. -/
def returned (c : Crew σ α) : List (Nat × Nat × α) := c.logged Deed.return?

end Crew

/-! ## Which node a pop is at -/

/-- The node that a pop has moved the head onto, and whose element it is to try for. -/
def Act.onto {σ α : Type} : Act σ α → Option Nat
  | .pop (.readTail _ n) | .pop (.fixTail _ n) | .pop (.retire _ n) => some n
  | .pop (.claim n) | .pop (.drain n _) | .pop (.lost n) | .pop (.take n) => some n
  | _ => none

/-- A pop gets to a node only by moving the head onto it. -/
theorem Act.onto_step {σ α : Type} {c : Chain α} {v u : Act σ α} {n : Nat} (hu : (v.step c).2 = some u)
    (hn : u.onto = some n) : v.onto = some n ∨ v.deed? c = some (.passed n) := by
  cases v with
  | push p =>
    cases hp : (p.step c).2 <;> simp only [step, onward, hp] at hu <;> cases hu
    cases hn
  | walk aim w =>
    cases hw : (w.step aim c).2 <;> simp only [step, onward, hw] at hu <;> cases hu
    cases hn
  | pop p =>
    cases p with
    | readHead => cases hu; cases hn
    | readNext h =>
      simp only [step, Pop.step] at hu
      split at hu <;> cases hu
      cases hn
    | moveHead h m =>
      by_cases hh : c.head = h
      · right
        simp only [step, Pop.step, if_pos hh] at hu
        cases hu
        cases hn
        simp [deed?, Pop.step, hh]
      · simp only [step, Pop.step, if_neg hh] at hu
        cases hu
        cases hn
    | readTail h m =>
      left
      by_cases ht : c.tail = h <;> simp only [step, Pop.step, ht, ↓reduceIte] at hu <;> cases hu <;> exact hn
    | fixTail h m => cases hu; exact .inl hn
    | retire h m => cases hu; exact .inl hn
    | claim m =>
      left
      simp only [step, Pop.step] at hu
      split at hu <;> cases hu
      · exact hn
      · cases hn
    | drain m d =>
      left
      by_cases hw : (c.node m).word = .owned
      · simp only [step, Pop.step_drain_owned hw] at hu
        cases hu
        exact hn
      · rcases Pop.step_drain_busy hw d with ⟨d', hd⟩ | hd <;> simp only [step, hd] at hu <;> cases hu <;> exact hn
    | lost m =>
      cases hu
      exact .inl hn
    | take m =>
      simp only [step, Pop.step] at hu
      split at hu <;> cases hu

/-- An element is given out by a pop that is at its node. -/
theorem Act.deed?_returned {σ α : Type} {c : Chain α} {v : Act σ α} {n : Nat} {a : α}
    (h : v.deed? c = some (.returned n a)) : v = .pop (.take n) ∧ (c.node n).slot = .holds a := by
  cases v with
  | push p =>
    simp only [deed?] at h
    split at h <;> cases h
  | pop p =>
    simp only [deed?] at h
    split at h
    · cases h
    · cases h
    · rename_i m b hs
      cases h
      refine ⟨rfl, ?_⟩
      simp only [Pop.step] at hs
      split at hs
      · rename_i hb
        cases hs
        exact hb
      · cases hs
    · cases h
  | walk aim w =>
    simp only [deed?] at h
    split at h <;> cases h

namespace Crew

variable {σ α : Type}

/-- The log knows of every pop which node it has moved the head onto. -/
structure Tracked (c : Crew σ α) : Prop where
  onto : ∀ k v n, c.threads[k]? = some (some v) → v.onto = some n → (k, .passed n) ∈ c.log
  returned : ∀ k n a, (k, .returned n a) ∈ c.log → (k, .passed n) ∈ c.log

theorem tracked_start (n : Nat) : (start n : Crew σ α).Tracked := by
  refine ⟨?_, ?_⟩
  · intro k v m hk
    cases List.eq_of_mem_replicate (List.mem_of_getElem? hk)
  · intro k m a h
    cases h

theorem tracked_step {c : Crew σ α} (e : Event σ α) (h : c.Tracked) : (c.step e).Tracked := by
  refine step_keeps h ?_ ?_ e
  · intro k e hk
    refine ⟨?_, h.returned⟩
    intro j v n hj hn
    rcases thread_set hj with ⟨rfl, hv⟩ | hj
    · obtain rfl : e.act = v := Option.some.inj hv
      cases e <;> cases hn
    · exact h.onto j v n hj hn
  · intro k v hk
    have grown : ∀ x ∈ c.log, x ∈ (c.turn k v).log := fun x hx => List.mem_append_left _ hx
    refine ⟨?_, ?_⟩
    · intro j u n hj hn
      rcases thread_set hj with ⟨rfl, hu⟩ | hj
      · rcases Act.onto_step hu hn with hv | hd
        · exact grown _ (h.onto j v n hk hv)
        · exact List.mem_append_right _ (by simp [hd])
      · exact grown _ (h.onto j u n hj hn)
    · intro j n a hj
      rcases List.mem_append.mp hj with hj | hj
      · exact grown _ (h.returned j n a hj)
      · have hd : v.deed? c.chain = some (.returned n a) ∧ k = j := by simpa using hj
        obtain ⟨hd, rfl⟩ := hd
        obtain ⟨rfl, -⟩ := Act.deed?_returned hd
        exact grown _ (h.onto k _ n hk rfl)

end Crew

end BusyWait
