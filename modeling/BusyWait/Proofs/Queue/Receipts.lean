import BusyWait.Proofs.Queue.Traffic
import Mathlib.Data.List.ReduceOption

/-
  BusyWait.Proofs.Queue.Receipts — what a call has done, told by its reply.

  What call `k` does is in the journal: the nodes that it has linked, whose elements it has
  moved out or dropped (`deedsOf`), and, if it waits, what its steps have come to
  (`probesOf`). At each moment these go with what is left of the call (`Job.Fits`), and at
  the end with its reply (`Reply.Fits`):
  - what it has linked, and what it is still to link, is what it was given;
  - what it has moved out is what it hands over; other calls move nothing out, whatever
    clones they give;
  - what it has dropped is as many elements as it says, and only removals drop any;
  - a wait tries in vain until the step that its reply goes with.

  `after_fits`: one access keeps this, whatever the others do in between.
-/

namespace BusyWait

variable {σ α : Type}

/-! ## Calls and replies -/

/-- What a call is there for. -/
inductive Purpose where
  | puts
  | takes
  /-- Takes, and waits with this flag if there is nothing. -/
  | waits (flag : Nat)
  | looks
  | removes
  deriving DecidableEq, Repr

@[simp] def Purpose.dequeues : Purpose → Bool
  | .takes | .waits _ => true
  | _ => false

namespace Call

def purpose : Call σ α → Purpose
  | .add _ | .offer _ | .offerTimeout _ _ | .put _ | .addAll _ => .puts
  | .poll | .pollMany _ | .removeFirst => .takes
  | .take flag | .pollTimeout _ flag => .waits flag
  | .removeItem _ | .removeAll _ | .retainAll _ | .retain _ | .clear | .removeWhere _ _ => .removes
  | .peek | .element | .len | .isEmpty | .toList | .contains _ | .containsAll _ | .drainTo _ | .drainToMax _ _
  | .next _ _ | .any _ => .looks

/-- What a call is given to put in, in order. -/
def given : Call σ α → List α
  | .add a | .offer a | .offerTimeout a _ | .put a => [a]
  | .addAll as => as
  | _ => []

end Call

/-- The elements in the reply of a dequeue. -/
def Reply.taken : Reply σ α → List α
  | .element a => a.toList
  | .elements as => as.reduceOption
  | .result (.ok a) => [a]
  | .timed (.ok a) => a.toList
  | _ => []

/-- The elements that a call hands over with its reply. What other calls than dequeues give are clones. -/
def Call.handed (call : Call σ α) (r : Reply σ α) : List α := if call.purpose.dequeues then r.taken else []

/-- What the reply of a removal says of the number of elements that it has dropped, if it was not broken off. -/
def Reply.Tells (n : Nat) : Reply σ α → Prop
  | .yes b | .retained (.ok b) _ => b = decide (0 < n)
  | .removed (.ok m) _ => m = n
  | _ => True

namespace Probe

/-- The step has not brought the wait to its end. -/
def vain : Probe α → Bool
  | .tried found => found.isNone
  | .looked _ _ => true
  | .swapped _ raised => !raised
  | .timed late => !late

/-- The steps end with `last`, and those before were in vain. -/
def Closes (last ps : List (Probe α)) : Prop := ∃ before, (∀ p ∈ before, p.vain = true) ∧ ps = before ++ last

/-- The last steps of a wait that ends with this reply. -/
def ending? (flag : Nat) : Reply σ α → Option (List (Probe α))
  | .result (.ok a) | .timed (.ok (some a)) => some [.tried (some a)]
  | .result (.error .interrupted) | .timed (.error .interrupted) =>
    some [.tried none, .looked flag true, .swapped flag true]
  | .timed (.ok none) => some [.timed true]
  | _ => none

theorem closes_nil {ps : List (Probe α)} : Closes [] ps ↔ ∀ p ∈ ps, p.vain = true := by
  constructor
  · intro h
    obtain ⟨before, hb, rfl⟩ := h
    simpa using hb
  · intro h
    exact ⟨ps, h, (List.append_nil ps).symm⟩

theorem Closes.snoc {last ps : List (Probe α)} (h : Closes last ps) (p : Probe α) :
    Closes (last ++ [p]) (ps ++ [p]) := by
  obtain ⟨before, hb, rfl⟩ := h
  exact ⟨before, hb, List.append_assoc ..⟩

theorem Closes.vain {last ps : List (Probe α)} (h : Closes last ps) (hl : ∀ p ∈ last, p.vain = true) :
    Closes [] ps := by
  obtain ⟨before, hb, rfl⟩ := h
  refine closes_nil.mpr ?_
  intro p hp
  exact (List.mem_append.mp hp).elim (hb p) (hl p)

end Probe

/-! ## What deeds come to -/

namespace Deed

def drop? : Deed α → Option Nat
  | .dropped n => some n
  | _ => none

/-- The elements that were put in, in order. -/
def linkedIn (ds : List (Deed α)) : List α := (ds.filterMap link?).map (·.2)

def returnedIn (ds : List (Deed α)) : List α := (ds.filterMap return?).map (·.2)

def droppedIn (ds : List (Deed α)) : List Nat := ds.filterMap drop?

variable (ds : List (Deed α)) (d : Option (Deed α))

theorem linkedIn_append : linkedIn (ds ++ d.toList) = linkedIn ds ++ ((d.bind link?).map (·.2)).toList := by
  rw [linkedIn, List.filterMap_append, List.map_append]
  rcases d with _ | d
  · rfl
  · cases d <;> rfl

theorem returnedIn_append : returnedIn (ds ++ d.toList) = returnedIn ds ++ ((d.bind return?).map (·.2)).toList := by
  rw [returnedIn, List.filterMap_append, List.map_append]
  rcases d with _ | d
  · rfl
  · cases d <;> rfl

theorem droppedIn_append : droppedIn (ds ++ d.toList) = droppedIn ds ++ (d.bind drop?).toList := by
  rw [droppedIn, List.filterMap_append]
  rcases d with _ | d
  · rfl
  · cases d <;> rfl

/-- It puts nothing in, and takes nothing away. -/
structure Silent (d : Option (Deed α)) : Prop where
  links : d.bind link? = none
  gives : d.bind return? = none
  drops : d.bind drop? = none

theorem Silent.none : Silent (none : Option (Deed α)) := ⟨rfl, rfl, rfl⟩

end Deed

/-! ## What pushes, pops and walks do -/

/-- What a push is still to link. -/
def Push.left : Push α → List α
  | .readTail a | .readNext a _ | .help a _ _ | .link a _ => [a]
  | .swing _ _ => []

theorem push_deed (c : Chain α) (p : Push α) :
    (Act.push p : Act σ α).deed? c = none ∧
      ((∃ q, (p.step c).2 = .more q ∧ q.left = p.left) ∨ (p.step c).2 = .done () ∧ p.left = []) ∨
    ∃ n a q, (Act.push p : Act σ α).deed? c = some (.linked n a) ∧ (p.step c).2 = .more q ∧ p.left = [a] ∧
      q.left = [] := by
  cases p with
  | readTail a => exact .inl ⟨rfl, .inl ⟨_, rfl, rfl⟩⟩
  | readNext a t =>
    refine .inl ⟨rfl, .inl ?_⟩
    cases h : (c.node t).next with
    | none => exact ⟨.link a t, by simp [Push.step, h], rfl⟩
    | some n => exact ⟨.help a t n, by simp [Push.step, h], rfl⟩
  | help a t n => exact .inl ⟨rfl, .inl ⟨_, rfl, rfl⟩⟩
  | link a t =>
    rw [Act.deed?_link]
    by_cases h : (c.node t).next = none
    · exact .inr ⟨_, a, .swing t c.nodes.size, if_pos h, by simp [Push.step, h], rfl, rfl⟩
    · exact .inl ⟨if_neg h, .inl ⟨.readTail a, by simp [Push.step, h], rfl⟩⟩
  | swing t n => exact .inl ⟨rfl, .inr ⟨rfl, rfl⟩⟩

theorem pop_deed {c : Chain α} {p : Pop} (h : (Act.pop p : Act σ α).Ready c) :
    (∃ q, (p.step c).2 = .more q ∧ Deed.Silent ((Act.pop p : Act σ α).deed? c)) ∨
    (p.step c).2 = .done (.ok none) ∧ (Act.pop p : Act σ α).deed? c = none ∨
    ∃ n a, (p.step c).2 = .done (.ok (some a)) ∧ (Act.pop p : Act σ α).deed? c = some (.returned n a) := by
  cases p with
  | readHead => exact .inl ⟨_, rfl, .none⟩
  | readNext i =>
    cases hn : (c.node i).next with
    | none => exact .inr (.inl ⟨by simp [Pop.step, hn], rfl⟩)
    | some n => exact .inl ⟨.moveHead i n, by simp [Pop.step, hn], .none⟩
  | moveHead i n =>
    rw [Act.deed?_moveHead]
    by_cases hh : c.head = i
    · exact .inl ⟨.readTail i n, by simp [Pop.step, hh], by rw [if_pos hh]; exact ⟨rfl, rfl, rfl⟩⟩
    · exact .inl ⟨.readHead, by simp [Pop.step, hh], by rw [if_neg hh]; exact .none⟩
  | readTail i n => exact .inl ⟨_, rfl, .none⟩
  | fixTail i n => exact .inl ⟨_, rfl, .none⟩
  | retire i n => exact .inl ⟨_, rfl, .none⟩
  | claim n => exact .inl ⟨_, rfl, .none⟩
  | drain n d =>
    rw [Act.deed?_drain]
    by_cases hw : (c.node n).word = .owned
    · exact .inl ⟨_, by rw [Pop.step_drain_owned hw], by rw [if_pos hw]; exact ⟨rfl, rfl, rfl⟩⟩
    · rw [if_neg hw]
      rcases Pop.step_drain_busy hw d with ⟨d', hd⟩ | hd
      · exact .inl ⟨_, by rw [hd], .none⟩
      · exact .inl ⟨_, by rw [hd], .none⟩
  | lost n => exact .inl ⟨_, rfl, .none⟩
  | take n =>
    obtain ⟨a, ha⟩ := h.holding n rfl
    exact .inr (.inr ⟨n, a, by simp [Pop.step, ha], by simp [Act.deed?_take, ha, Slot.element?]⟩)

/-- Part of taking an element away. -/
def Stage.removes : Stage α → Bool
  | .claim | .drain _ | .lost | .drop => true
  | _ => false

def Aim.removes : Aim σ α → Bool
  | .remove _ _ => true
  | _ => false

/-- A walk that has dropped nothing, and is not about to claim or to drop anything. -/
structure Walk.Harmless (w : Walk σ α) : Prop where
  removed : w.removed = 0
  stage : w.stage.removes = false

theorem harmless_start (s : σ) : (Walk.start s : Walk σ α).Harmless := ⟨rfl, rfl⟩

theorem harmless_resume (cursor : Nat) (s : σ) : (Walk.resume cursor s : Walk σ α).Harmless := ⟨rfl, rfl⟩

theorem walk_harmless {c : Chain α} {aim : Aim σ α} {w u : Walk σ α} (ha : aim.removes = false) (hw : w.Harmless)
    (hu : (w.step aim c).2 = .more u) : u.Harmless := by
  obtain ⟨stage, n, s, m⟩ := w
  obtain rfl : m = 0 := hw.removed
  have hstage : stage.removes = false := hw.stage
  cases stage with
  | readHead =>
    simp only [Walk.step] at hu
    split at hu <;> cases hu
    exact ⟨rfl, rfl⟩
  | seek =>
    simp only [Walk.step] at hu
    split at hu <;> cases hu
    exact ⟨rfl, rfl⟩
  | enter e =>
    simp only [Walk.step] at hu
    split at hu <;> cases hu <;> exact ⟨rfl, rfl⟩
  | inside =>
    simp only [Walk.step] at hu
    split at hu <;> cases hu
    exact ⟨rfl, rfl⟩
  | leave seen =>
    simp only [Walk.step] at hu
    split at hu
    · cases seen with
      | copied a => cases hu
      | broke f => cases hu
      | answered b =>
        cases b with
        | false =>
          cases hu
          exact ⟨rfl, rfl⟩
        | true => cases aim <;> cases ha <;> cases hu
    · cases hu
  | claim => cases hstage
  | drain d => cases hstage
  | lost => cases hstage
  | drop => cases hstage

/-- A removal that ends has counted right. -/
theorem removed_atEnd {w : Walk σ α} {aim : Aim σ α} {m : Nat} (h : w.atEnd aim = .removed m) : m = w.removed := by
  cases aim with
  | copy => cases h
  | find ask => cases h
  | remove ask limit =>
    cases h
    rfl

/-- A walk counts the elements that it drops: none anywhere but in the last stage. -/
theorem walk_keeps (c : Chain α) (aim : Aim σ α) {w : Walk σ α} (hw : w.stage ≠ .drop) :
    Deed.Silent ((Act.walk aim w).deed? c) ∧ (∀ u, (w.step aim c).2 = .more u → u.removed = w.removed) ∧
      ∀ e m, (w.step aim c).2 = .done e → e.outcome = .removed m → m = w.removed := by
  obtain ⟨stage, n, s, k⟩ := w
  cases stage with
  | readHead =>
    refine ⟨.none, ?_, ?_⟩
    · intro u hu
      simp only [Walk.step] at hu
      split at hu <;> cases hu
      rfl
    · intro e m he hm
      simp only [Walk.step] at he
      split at he <;> cases he
      exact removed_atEnd hm
  | seek =>
    refine ⟨.none, ?_, ?_⟩
    · intro u hu
      simp only [Walk.step] at hu
      split at hu <;> cases hu
      rfl
    · intro e m he hm
      simp only [Walk.step] at he
      split at he <;> cases he
      exact removed_atEnd hm
  | enter e =>
    refine ⟨.none, ?_, ?_⟩
    · intro u hu
      simp only [Walk.step] at hu
      split at hu <;> cases hu <;> rfl
    · intro e m he hm
      simp only [Walk.step] at he
      split at he <;> cases he
      cases hm
  | inside =>
    refine ⟨.none, ?_, ?_⟩
    · intro u hu
      simp only [Walk.step] at hu
      split at hu <;> cases hu
      rfl
    · intro e m he hm
      simp only [Walk.step] at he
      split at he <;> cases he
      cases hm
  | leave seen =>
    refine ⟨.none, ?_, ?_⟩
    · intro u hu
      simp only [Walk.step] at hu
      split at hu
      · rcases afterSight_more hu with rfl | rfl <;> rfl
      · cases hu
    · intro e m he hm
      simp only [Walk.step] at he
      split at he
      · cases seen with
        | copied a => cases he; cases hm
        | broke f => cases he; cases hm
        | answered b => cases b <;> cases aim <;> cases he <;> cases hm
      · cases he
        cases hm
  | claim =>
    refine ⟨.none, ?_, ?_⟩
    · intro u hu
      cases hu
      rfl
    · intro e m he
      cases he
  | drain d =>
    refine ⟨?_, ?_, ?_⟩
    · rw [Act.deed?_walk_drain]
      split
      · exact ⟨rfl, rfl, rfl⟩
      · exact .none
    · intro u hu
      simp only [Walk.step] at hu
      split at hu <;> cases hu <;> rfl
    · intro e m he
      simp only [Walk.step] at he
      split at he <;> cases he
  | lost =>
    refine ⟨.none, ?_, ?_⟩
    · intro u hu
      cases hu
      rfl
    · intro e m he
      cases he
  | drop => exact absurd rfl hw

/-- A harmless walk does nothing that counts. -/
theorem walk_silent {c : Chain α} {aim : Aim σ α} {w : Walk σ α} (hw : w.Harmless) :
    (Act.walk aim w).deed? c = none := by
  obtain ⟨stage, n, s, m⟩ := w
  cases stage with
  | drain d => cases hw.stage
  | drop => cases hw.stage
  | _ => rfl

/-- What a walk does, and its count of the elements that it has dropped, which it ends with. -/
theorem walk_counts {c : Chain α} {aim : Aim σ α} {w : Walk σ α} (h : (Act.walk aim w).Ready c) :
    ((Act.walk aim w).deed? c).bind Deed.link? = none ∧ ((Act.walk aim w).deed? c).bind Deed.return? = none ∧
    ∃ d, (((Act.walk aim w).deed? c).bind Deed.drop?).toList.length = d ∧
      (∀ u, (w.step aim c).2 = .more u → u.removed = w.removed + d) ∧
      ∀ e m, (w.step aim c).2 = .done e → e.outcome = .removed m → m = w.removed + d := by
  by_cases hw : w.stage = .drop
  · obtain ⟨stage, n, s, k⟩ := w
    obtain rfl : stage = .drop := hw
    obtain ⟨a, ha⟩ := h.holding n rfl
    have hdeed : (Act.walk aim ⟨.drop, n, s, k⟩).deed? c = some (.dropped n) := by
      rw [Act.deed?_walk_drop, ha]
      rfl
    rw [hdeed]
    refine ⟨rfl, rfl, 1, rfl, ?_, ?_⟩
    · intro u hu
      simp only [Walk.step, ha] at hu
      split at hu <;> cases hu
      rfl
    · intro e m he hm
      simp only [Walk.step, ha] at he
      split at he <;> cases he
      exact removed_atEnd hm
  · obtain ⟨hsilent, hmore, hdone⟩ := walk_keeps c aim hw
    exact ⟨hsilent.links, hsilent.gives, 0, by rw [hsilent.drops]; rfl, hmore, hdone⟩

/-! ## Each call -/

/-- What holds of the job of a call at any time. -/
def Job.Serves (call : Call σ α) : Job σ α → Prop
  | .push _ _ _ => call.purpose = .puts
  | .pop _ reply => call.purpose = .takes ∧ ∀ a, (reply a).taken = a.toList
  | .popMany _ _ _ => call.purpose = .takes
  | .walk aim w reply => call.purpose = .looks ∧ aim.removes = false ∧ w.Harmless ∨
    call.purpose = .removes ∧ ∀ e n, (∀ m, e.outcome = .removed m → m = n) → (reply e).Tells n
  | .next w _ _ | .collect w _ | .containsAll _ w _ => call.purpose = .looks ∧ w.Harmless
  | .take _ _ flag | .pollTimeout _ _ flag _ => call.purpose = .waits flag

/-- What a job is still to put in. -/
def Job.left : Job σ α → List α
  | .push p rest _ => p.left ++ rest
  | _ => []

/-- What it has taken. -/
def Job.got : Job σ α → List α
  | .popMany _ _ got => got.reduceOption
  | _ => []

/-- How many elements it has dropped. -/
def Job.removed : Job σ α → Nat
  | .walk _ w _ | .next w _ _ | .collect w _ | .containsAll _ w _ => w.removed
  | _ => 0

/-- The steps of a wait so far. -/
def Job.Course (ps : List (Probe α)) : Job σ α → Prop
  | .take (.attempt _) _ _ | .pollTimeout (.attempt _) _ _ _ | .pollTimeout (.clock _) _ _ _ => Probe.Closes [] ps
  | .take (.look _) _ _ | .pollTimeout (.look _) _ _ _ => Probe.Closes [.tried none] ps
  | .take (.lower _) _ flag | .pollTimeout (.lower _) _ flag _ => Probe.Closes [.tried none, .looked flag true] ps
  | _ => ps = []

open Deed in
/-- What a call has done that is under way. -/
structure Job.Fits (call : Call σ α) (ds : List (Deed α)) (ps : List (Probe α)) (j : Job σ α) : Prop where
  serves : j.Serves call
  linked : linkedIn ds ++ j.left = call.given
  returned : returnedIn ds = j.got
  dropped : (droppedIn ds).length = j.removed
  course : j.Course ps

open Deed in
/-- What a call has done that is over. -/
structure Reply.Fits (call : Call σ α) (ds : List (Deed α)) (ps : List (Probe α)) (r : Reply σ α) : Prop where
  linked : linkedIn ds = call.given
  returned : returnedIn ds = call.handed r
  dropped : if call.purpose = .removes then r.Tells (droppedIn ds).length else droppedIn ds = []
  course : match call.purpose with
    | .waits flag => ∃ last, Probe.ending? flag r = some last ∧ Probe.Closes last ps
    | _ => ps = []

def Progress.Fits (call : Call σ α) (ds : List (Deed α)) (ps : List (Probe α)) :
    Progress (Job σ α) (Reply σ α) → Prop
  | .more j => j.Fits call ds ps
  | .done r => r.Fits call ds ps

section
variable {call : Call σ α} {ds : List (Deed α)} {ps qs : List (Probe α)} {d : Option (Deed α)} {j j' : Job σ α}

open Deed

/-- After an access a call has done what it had done before, and what the access decides. -/
theorem Job.Fits.goes (h : j.Fits call ds ps) (hs : j'.Serves call)
    (hl : j.left = ((d.bind link?).map (·.2)).toList ++ j'.left)
    (hg : j'.got = j.got ++ ((d.bind return?).map (·.2)).toList)
    (hr : j'.removed = j.removed + (d.bind drop?).toList.length) (hc : j'.Course qs) :
    j'.Fits call (ds ++ d.toList) qs := by
  refine ⟨hs, ?_, ?_, ?_, hc⟩
  · rw [linkedIn_append, List.append_assoc, ← hl]
    exact h.linked
  · rw [returnedIn_append, hg, h.returned]
  · rw [droppedIn_append, List.length_append, hr, h.dropped]

theorem Job.Fits.ends (h : j.Fits call ds ps) {r : Reply σ α} (hl : j.left = ((d.bind link?).map (·.2)).toList)
    (hg : call.handed r = j.got ++ ((d.bind return?).map (·.2)).toList)
    (hr : if call.purpose = .removes then r.Tells (j.removed + (d.bind drop?).toList.length)
      else j.removed + (d.bind drop?).toList.length = 0)
    (hc : match call.purpose with
      | .waits flag => ∃ last, Probe.ending? flag r = some last ∧ Probe.Closes last qs
      | _ => qs = []) : r.Fits call (ds ++ d.toList) qs := by
  refine ⟨?_, ?_, ?_, hc⟩
  · rw [linkedIn_append, ← hl]
    exact h.linked
  · rw [returnedIn_append, hg, h.returned]
  · rw [droppedIn_append, ← List.length_eq_zero_iff, List.length_append, h.dropped]
    exact hr

theorem push_fits {p : Push α} {rest : List α} {reply : Reply σ α} (h : (Job.push p rest reply).Fits call ds ps)
    (c : Chain α) : ((p.step c).2.onto (Job.push · rest reply) fun _ => Job.pushNext rest reply).Fits call
      (ds ++ ((Act.push p : Act σ α).deed? c).toList) ps := by
  have hputs : call.purpose = .puts := h.serves
  rcases push_deed (σ := σ) c p with ⟨hd, ⟨q, hq, hleft⟩ | ⟨hq, hleft⟩⟩ | ⟨n, a, q, hd, hq, hleft, hnext⟩
  · rw [hq, hd]
    exact h.goes hputs (by simp [Job.left, hleft]) rfl rfl h.course
  · rw [hq, hd]
    cases rest with
    | nil =>
      have hps : ps = [] := h.course
      exact h.ends (by simp [Job.left, hleft]) (by simp [Call.handed, hputs, Job.got]) (by simp [hputs, Job.removed])
        (by simp [hputs, hps])
    | cons a rest => exact h.goes hputs (by simp only [Job.left, hleft]; rfl) rfl rfl h.course
  · rw [hq, hd]
    exact h.goes hputs (by simp [Job.left, hleft, hnext, link?]) rfl rfl h.course

section
variable {c : Chain α} {p : Pop}

theorem pop_fits {reply : Option α → Reply σ α} (h : (Job.pop p reply).Fits call ds ps)
    (hp : (Act.pop p : Act σ α).Ready c) : ((p.step c).2.onto (Job.pop · reply) (Job.popEnd reply)).Fits call
      (ds ++ ((Act.pop p : Act σ α).deed? c).toList) ps := by
  obtain ⟨htakes, hreply⟩ : call.purpose = .takes ∧ ∀ a, (reply a).taken = a.toList := h.serves
  have hps : ps = [] := h.course
  rcases pop_deed hp with ⟨q, hq, hd⟩ | ⟨hq, hd⟩ | ⟨n, a, hq, hd⟩
  · rw [hq]
    exact h.goes h.serves (by rw [hd.links]; rfl) (by rw [hd.gives]; rfl) (by rw [hd.drops]; rfl) h.course
  · rw [hq, hd]
    exact h.ends rfl (by simp [Call.handed, htakes, hreply, Job.got]) (by simp [htakes, Job.removed])
      (by simp [htakes, hps])
  · rw [hq, hd]
    exact h.ends rfl (by simp [Call.handed, htakes, hreply, Job.got, return?]) (by simp [htakes, Job.removed, drop?])
      (by simp [htakes, hps])

theorem popMany_fits {left : Nat} {got : List (Option α)} (h : (Job.popMany p left got : Job σ α).Fits call ds ps)
    (hp : (Act.pop p : Act σ α).Ready c) :
    ((p.step c).2.onto (Job.popMany · left got) (Job.popAfter left got) : Progress (Job σ α) (Reply σ α)).Fits call
      (ds ++ ((Act.pop p : Act σ α).deed? c).toList) ps := by
  have htakes : call.purpose = .takes := h.serves
  have hps : ps = [] := h.course
  rcases pop_deed hp with ⟨q, hq, hd⟩ | ⟨hq, hd⟩ | ⟨n, a, hq, hd⟩
  · rw [hq]
    exact h.goes h.serves (by rw [hd.links]; rfl) (by rw [hd.gives]; simp [Job.got]) (by rw [hd.drops]; rfl) h.course
  · rw [hq, hd]
    cases left with
    | zero =>
      exact h.ends rfl (by simp [Call.handed, htakes, Reply.taken, Job.got, List.reduceOption_append])
        (by simp [htakes, Job.removed]) (by simp [htakes, hps])
    | succ left =>
      exact h.goes htakes rfl (by simp [Job.got, List.reduceOption_append]) rfl h.course
  · rw [hq, hd]
    cases left with
    | zero =>
      exact h.ends rfl (by simp [Call.handed, htakes, Reply.taken, Job.got, List.reduceOption_append, return?])
        (by simp [htakes, Job.removed, drop?]) (by simp [htakes, hps])
    | succ left =>
      exact h.goes htakes rfl (by simp [Job.got, List.reduceOption_append, return?]) rfl h.course

/-- An attempt of a wait takes an element and ends the wait, or has found nothing. -/
theorem take_fits {n : UInt32} {flag : Nat} {s : Shared α}
    (h : (Job.take (.attempt n) p flag : Job σ α).Fits call ds ps) (hp : (Act.pop p : Act σ α).Ready s.chain) :
    ((p.step s.chain).2.onto (Job.take (.attempt n) · flag) (Job.takeNext n flag) :
      Progress (Job σ α) (Reply σ α)).Fits call (ds ++ ((Act.pop p : Act σ α).deed? s.chain).toList)
        (ps ++ ((Job.take (.attempt n) p flag : Job σ α).probe? s).toList) := by
  have hwaits : call.purpose = .waits flag := h.serves
  have hvain : Probe.Closes [] ps := h.course
  simp only [Job.probe?]
  rcases pop_deed hp with ⟨q, hq, hd⟩ | ⟨hq, hd⟩ | ⟨m, a, hq, hd⟩
  · rw [hq]
    exact h.goes hwaits (by rw [hd.links]; rfl) (by rw [hd.gives]; rfl) (by rw [hd.drops]; rfl)
      (by simpa [Job.Course] using hvain)
  · rw [hq, hd]
    exact h.goes hwaits rfl rfl rfl (hvain.snoc _)
  · rw [hq, hd]
    exact h.ends rfl (by simp [Call.handed, hwaits, Reply.taken, Job.got, return?])
      (by simp [hwaits, Job.removed, drop?]) (by simpa [hwaits, Probe.ending?] using hvain.snoc _)

theorem timed_fits {n : UInt32} {flag : Nat} {deadline : Option Nat} {s : Shared α}
    (h : (Job.pollTimeout (.attempt n) p flag deadline : Job σ α).Fits call ds ps)
    (hp : (Act.pop p : Act σ α).Ready s.chain) :
    ((p.step s.chain).2.onto (Job.pollTimeout (.attempt n) · flag deadline) (Job.timedNext n flag deadline) :
      Progress (Job σ α) (Reply σ α)).Fits call (ds ++ ((Act.pop p : Act σ α).deed? s.chain).toList)
        (ps ++ ((Job.pollTimeout (.attempt n) p flag deadline : Job σ α).probe? s).toList) := by
  have hwaits : call.purpose = .waits flag := h.serves
  have hvain : Probe.Closes [] ps := h.course
  simp only [Job.probe?]
  rcases pop_deed hp with ⟨q, hq, hd⟩ | ⟨hq, hd⟩ | ⟨m, a, hq, hd⟩
  · rw [hq]
    exact h.goes hwaits (by rw [hd.links]; rfl) (by rw [hd.gives]; rfl) (by rw [hd.drops]; rfl)
      (by simpa [Job.Course] using hvain)
  · rw [hq, hd]
    exact h.goes hwaits rfl rfl rfl (hvain.snoc _)
  · rw [hq, hd]
    exact h.ends rfl (by simp [Call.handed, hwaits, Reply.taken, Job.got, return?])
      (by simp [hwaits, Job.removed, drop?]) (by simpa [hwaits, Probe.ending?] using hvain.snoc _)

end

section
variable {c : Chain α} {aim : Aim σ α} {w : Walk σ α}

/-- A call that only looks has done nothing. -/
structure Looks (call : Call σ α) (ds : List (Deed α)) (ps : List (Probe α)) : Prop where
  purpose : call.purpose = .looks
  linked : linkedIn ds = call.given
  returned : returnedIn ds = []
  dropped : droppedIn ds = []
  course : ps = []

theorem Job.Fits.looks (h : j.Fits call ds ps) (hc : call.purpose = .looks) (hl : j.left = []) (hg : j.got = [])
    (hr : j.removed = 0) (hp : ps = []) : Looks call ds ps := by
  refine ⟨hc, ?_, by rw [h.returned, hg], List.length_eq_zero_iff.mp (by rw [h.dropped, hr]), hp⟩
  have hlinked := h.linked
  rwa [hl, List.append_nil] at hlinked

/-- So it may end with any reply. -/
theorem Looks.reply (h : Looks call ds ps) (r : Reply σ α) : r.Fits call ds ps := by
  refine ⟨h.linked, ?_, ?_, ?_⟩
  · simp [Call.handed, h.purpose, h.returned]
  · simp [h.purpose, h.dropped]
  · simp [h.purpose, h.course]

theorem Looks.job (h : Looks call ds ps) (hs : j.Serves call) (hl : j.left = []) (hg : j.got = [])
    (hr : j.removed = 0) (hc : j.Course []) : j.Fits call ds ps := by
  refine ⟨hs, ?_, by rw [h.returned, hg], by rw [h.dropped, hr]; rfl, h.course ▸ hc⟩
  rw [hl, List.append_nil]
  exact h.linked

/-- The walks of a call that only looks, one after the other. -/
theorem look_fits (hw : w.Harmless) (ha : aim.removes = false) {f : Walk σ α → Job σ α}
    {k : Walked σ α → Progress (Job σ α) (Reply σ α)} (hf : ∀ u : Walk σ α, u.Harmless → (f u).Fits call ds ps)
    (hk : ∀ e, (k e).Fits call ds ps) :
    ((w.step aim c).2.onto f k).Fits call (ds ++ ((Act.walk aim w).deed? c).toList) ps := by
  rw [walk_silent hw, Option.toList_none, List.append_nil]
  cases hx : (w.step aim c).2 with
  | more u => exact hf u (walk_harmless ha hw hx)
  | done e => exact hk e

theorem walk_fits {reply : Walked σ α → Reply σ α} (h : (Job.walk aim w reply).Fits call ds ps)
    (hw : (Act.walk aim w).Ready c) :
    ((w.step aim c).2.onto (Job.walk aim · reply) fun e => (.done (reply e) : Progress (Job σ α) (Reply σ α))).Fits call
      (ds ++ ((Act.walk aim w).deed? c).toList) ps := by
  have hserves : call.purpose = .looks ∧ aim.removes = false ∧ w.Harmless ∨
    call.purpose = .removes ∧ ∀ e n, (∀ m, e.outcome = .removed m → m = n) → (reply e).Tells n := h.serves
  have hps : ps = [] := h.course
  rcases hserves with ⟨hc, ha, hh⟩ | ⟨hc, htells⟩
  · have hlooks := h.looks hc rfl rfl hh.removed hps
    exact look_fits hh ha (fun u hu => hlooks.job (.inl ⟨hc, ha, hu⟩) rfl rfl hu.removed rfl) fun e => hlooks.reply _
  · obtain ⟨hl, hg, d, hd, hmore, hdone⟩ := walk_counts hw
    cases hx : (w.step aim c).2 with
    | more u =>
      exact h.goes (.inr ⟨hc, htells⟩) (by rw [hl]; rfl) (by rw [hg]; rfl) (by rw [hd]; exact hmore u hx) h.course
    | done e =>
      refine h.ends (by rw [hl]; rfl) (by rw [hg]; simp [Call.handed, hc, Job.got]) ?_ (by simp [hc, hps])
      rw [if_pos hc, hd]
      exact htells e _ fun m hm => hdone e m hx hm

end

theorem removedOf_ok {e : Walked σ α} {m : Nat} (h : Job.removedOf e = .ok m) : e.outcome = .removed m := by
  simp only [Job.removedOf] at h
  split at h <;> cases h
  assumption

/-- What removals say of the number of elements that they have dropped. -/
theorem tells_removedOf {e : Walked σ α} {n : Nat} (h : ∀ m, e.outcome = .removed m → m = n) :
    (Job.anyRemoved e).Tells n ∧ (Reply.removed (Job.removedOf e) e.state : Reply σ α).Tells n ∧
      (Reply.retained ((Job.removedOf e).map (0 < ·)) e.state : Reply σ α).Tells n := by
  unfold Job.anyRemoved
  cases hr : Job.removedOf e with
  | error f => exact ⟨trivial, trivial, trivial⟩
  | ok m =>
    obtain rfl : m = n := h m (removedOf_ok hr)
    exact ⟨rfl, rfl, rfl⟩

variable [BEq α]

/-- One access of a call. -/
theorem after_fits {s : Shared α} (h : j.Fits call ds ps) (hr : ∀ v, j.act? = some v → v.Ready s.chain) :
    (j.after s).2.Fits call (ds ++ (j.deed? s).toList) (ps ++ (j.probe? s).toList) := by
  have hnone : ∀ {l : List (Probe α)}, l ++ (none : Option (Probe α)).toList = l := by simp
  cases j with
  | push p rest reply =>
    rw [Job.after_push, show (Job.push p rest reply).probe? s = none from rfl, hnone]
    exact push_fits h s.chain
  | pop p reply =>
    rw [Job.after_pop, show (Job.pop p reply).probe? s = none from rfl, hnone]
    exact pop_fits h (hr _ rfl)
  | popMany p left got =>
    rw [Job.after_popMany, show (Job.popMany p left got : Job σ α).probe? s = none from rfl, hnone]
    exact popMany_fits h (hr _ rfl)
  | walk aim w reply =>
    rw [Job.after_walk, show (Job.walk aim w reply).probe? s = none from rfl, hnone]
    exact walk_fits h (hr _ rfl)
  | next w left got =>
    rw [Job.after_next, show (Job.next w left got).probe? s = none from rfl, hnone]
    obtain ⟨hc, hw⟩ : call.purpose = .looks ∧ w.Harmless := h.serves
    have hlooks := h.looks hc rfl rfl hw.removed h.course
    refine look_fits hw rfl (fun u hu => hlooks.job ⟨hc, hu⟩ rfl rfl hu.removed rfl) ?_
    intro e
    obtain ⟨cursor, state, o⟩ := e
    cases o with
    | copied a =>
      cases left with
      | zero => exact hlooks.reply _
      | succ left => exact hlooks.job ⟨hc, harmless_resume cursor state⟩ rfl rfl rfl rfl
    | found b => cases left <;> exact hlooks.reply _
    | removed m => cases left <;> exact hlooks.reply _
    | broke f => cases left <;> exact hlooks.reply _
  | collect w got =>
    rw [Job.after_collect, show (Job.collect w got).probe? s = none from rfl, hnone]
    obtain ⟨hc, hw⟩ : call.purpose = .looks ∧ w.Harmless := h.serves
    have hlooks := h.looks hc rfl rfl hw.removed h.course
    refine look_fits hw rfl (fun u hu => hlooks.job ⟨hc, hu⟩ rfl rfl hu.removed rfl) ?_
    intro e
    obtain ⟨cursor, state, o⟩ := e
    cases o with
    | copied a =>
      cases a with
      | none => exact hlooks.reply _
      | some a => exact hlooks.job ⟨hc, harmless_resume cursor state⟩ rfl rfl rfl rfl
    | found b => exact hlooks.reply _
    | removed m => exact hlooks.reply _
    | broke f => exact hlooks.reply _
  | containsAll item w rest =>
    rw [Job.after_containsAll, show (Job.containsAll item w rest).probe? s = none from rfl, hnone]
    obtain ⟨hc, hw⟩ : call.purpose = .looks ∧ w.Harmless := h.serves
    have hlooks := h.looks hc rfl rfl hw.removed h.course
    refine look_fits hw rfl (fun u hu => hlooks.job ⟨hc, hu⟩ rfl rfl hu.removed rfl) ?_
    intro e
    obtain ⟨cursor, state, o⟩ := e
    cases o with
    | found b =>
      cases rest with
      | nil => cases b <;> exact hlooks.reply _
      | cons a rest =>
        cases b with
        | false => exact hlooks.reply _
        | true => exact hlooks.job ⟨hc, harmless_start state⟩ rfl rfl rfl rfl
    | copied a => cases rest <;> exact hlooks.reply _
    | removed m => cases rest <;> exact hlooks.reply _
    | broke f => cases rest <;> exact hlooks.reply _
  | take t p flag =>
    have hwaits : call.purpose = .waits flag := h.serves
    cases t with
    | attempt n =>
      rw [Job.after_take]
      exact take_fits h (hr _ rfl)
    | look n =>
      have hcourse : Probe.Closes [.tried none] ps := h.course
      rw [Job.after_take_look]
      simp only [Job.probe?]
      cases s.raised flag with
      | true => exact h.goes (d := none) hwaits rfl rfl rfl (hcourse.snoc _)
      | false => exact h.goes (d := none) hwaits rfl rfl rfl ((hcourse.snoc _).vain (by simp [Probe.vain]))
    | lower n =>
      have hcourse : Probe.Closes [.tried none, .looked flag true] ps := h.course
      rw [Job.after_take_lower]
      simp only [Job.probe?]
      cases s.raised flag with
      | true =>
        exact h.ends (d := none) rfl (by simp [Call.handed, hwaits, Reply.taken, Job.got])
          (by simp [hwaits, Job.removed]) (by simpa [hwaits, Probe.ending?] using hcourse.snoc _)
      | false => exact h.goes (d := none) hwaits rfl rfl rfl ((hcourse.snoc _).vain (by simp [Probe.vain]))
  | pollTimeout t p flag deadline =>
    have hwaits : call.purpose = .waits flag := h.serves
    cases t with
    | attempt n =>
      rw [Job.after_timed]
      exact timed_fits h (hr _ rfl)
    | look n =>
      have hcourse : Probe.Closes [.tried none] ps := h.course
      rw [Job.after_timed_look]
      simp only [Job.probe?]
      cases s.raised flag with
      | true => exact h.goes (d := none) hwaits rfl rfl rfl (hcourse.snoc _)
      | false => exact h.goes (d := none) hwaits rfl rfl rfl ((hcourse.snoc _).vain (by simp [Probe.vain]))
    | lower n =>
      have hcourse : Probe.Closes [.tried none, .looked flag true] ps := h.course
      rw [Job.after_timed_lower]
      simp only [Job.probe?]
      cases s.raised flag with
      | true =>
        exact h.ends (d := none) rfl (by simp [Call.handed, hwaits, Reply.taken, Job.got])
          (by simp [hwaits, Job.removed]) (by simpa [hwaits, Probe.ending?] using hcourse.snoc _)
      | false => exact h.goes (d := none) hwaits rfl rfl rfl ((hcourse.snoc _).vain (by simp [Probe.vain]))
    | clock n =>
      have hcourse : Probe.Closes [] ps := h.course
      rw [Job.after_timed_clock]
      simp only [Job.probe?]
      cases TimedPoll.isLate deadline s.now with
      | true =>
        exact h.ends (d := none) rfl (by simp [Call.handed, hwaits, Reply.taken, Job.got])
          (by simp [hwaits, Job.removed]) (by simpa [hwaits, Probe.ending?] using hcourse.snoc _)
      | false => exact h.goes (d := none) hwaits rfl rfl rfl ((hcourse.snoc _).vain (by simp [Probe.vain]))

/-- A call that begins has done nothing. -/
theorem start_fits (init : σ) (s : Shared α) (call : Call σ α) : (Job.start init s call).1.Fits call [] [] := by
  have walks : ∀ {aim : Aim σ α} {reply : Walked σ α → Reply σ α}, call.purpose = .removes → call.given = [] →
      (∀ e n, (∀ m, e.outcome = .removed m → m = n) → (reply e).Tells n) →
      (Job.walk aim (.start init) reply).Fits call [] [] :=
    fun hc hg ht => ⟨.inr ⟨hc, ht⟩, hg.symm, rfl, rfl, rfl⟩
  have looks : ∀ {j : Job σ α}, call.purpose = .looks → call.given = [] → j.Serves call → j.left = [] → j.got = [] →
      j.removed = 0 → j.Course [] → j.Fits call [] [] :=
    fun hc hg hs hl ht hr hp => Looks.job ⟨hc, hg.symm, rfl, rfl, rfl⟩ hs hl ht hr hp
  cases call with
  | add a => exact ⟨rfl, rfl, rfl, rfl, rfl⟩
  | offer a => exact ⟨rfl, rfl, rfl, rfl, rfl⟩
  | offerTimeout a timeout => exact ⟨rfl, rfl, rfl, rfl, rfl⟩
  | put a => exact ⟨rfl, rfl, rfl, rfl, rfl⟩
  | addAll as =>
    cases as with
    | nil => exact ⟨rfl, rfl, rfl, rfl⟩
    | cons a as => exact ⟨rfl, rfl, rfl, rfl, rfl⟩
  | poll => exact ⟨⟨rfl, fun _ => rfl⟩, rfl, rfl, rfl, rfl⟩
  | removeFirst => exact ⟨⟨rfl, fun a => by cases a <;> rfl⟩, rfl, rfl, rfl, rfl⟩
  | pollMany n =>
    cases n with
    | zero => exact ⟨rfl, rfl, rfl, rfl⟩
    | succ n => exact ⟨rfl, rfl, rfl, rfl, rfl⟩
  | take flag => exact ⟨rfl, rfl, rfl, rfl, Probe.closes_nil.mpr nofun⟩
  | pollTimeout timeout flag => exact ⟨rfl, rfl, rfl, rfl, Probe.closes_nil.mpr nofun⟩
  | removeItem a => exact walks rfl rfl fun _ _ h => (tells_removedOf h).1
  | removeAll as => exact walks rfl rfl fun _ _ h => (tells_removedOf h).1
  | retainAll as => exact walks rfl rfl fun _ _ h => (tells_removedOf h).1
  | retain keep => exact walks rfl rfl fun _ _ h => (tells_removedOf h).2.2
  | removeWhere ask limit => exact walks rfl rfl fun _ _ h => (tells_removedOf h).2.1
  | clear =>
    refine walks rfl rfl ?_
    intro e n h
    cases Job.removedOf e <;> trivial
  | peek => exact looks rfl rfl (.inl ⟨rfl, rfl, harmless_start init⟩) rfl rfl rfl rfl
  | element => exact looks rfl rfl (.inl ⟨rfl, rfl, harmless_start init⟩) rfl rfl rfl rfl
  | contains a => exact looks rfl rfl (.inl ⟨rfl, rfl, harmless_start init⟩) rfl rfl rfl rfl
  | any ask => exact looks rfl rfl (.inl ⟨rfl, rfl, harmless_start init⟩) rfl rfl rfl rfl
  | toList => exact looks rfl rfl ⟨rfl, harmless_start init⟩ rfl rfl rfl rfl
  | containsAll as =>
    cases as with
    | nil => exact ⟨rfl, rfl, rfl, rfl⟩
    | cons a as => exact looks rfl rfl ⟨rfl, harmless_start init⟩ rfl rfl rfl rfl
  | next cursor n =>
    cases n with
    | none => exact looks rfl rfl (.inl ⟨rfl, rfl, harmless_resume cursor init⟩) rfl rfl rfl rfl
    | some n =>
      cases n with
      | zero => exact ⟨rfl, rfl, rfl, rfl⟩
      | succ n => exact looks rfl rfl ⟨rfl, harmless_resume cursor init⟩ rfl rfl rfl rfl
  | len => exact ⟨rfl, rfl, rfl, rfl⟩
  | isEmpty => exact ⟨rfl, rfl, rfl, rfl⟩
  | drainTo sink => exact ⟨rfl, rfl, rfl, rfl⟩
  | drainToMax sink max => exact ⟨rfl, rfl, rfl, rfl⟩

end

/-! ## Claims -/

/-- What is claimed is moved out or dropped next by who has claimed it, and nothing else is. -/
theorem Effect.consumes {c c' : Chain α} {r r' : Option (Role × Nat)} {d : Option (Deed α)} (h : Effect c r c' r' d)
    (n : Nat) : d.toList.countP (Deed.claims n) + (decide (r = some (.holding, n))).toNat =
      d.toList.countP (Deed.returns n) + d.toList.countP (Deed.drops n) +
        (decide (r' = some (.holding, n))).toNat := by
  cases h with
  | still r hs => simp
  | linked t a => simp [Deed.claims, Deed.returns, Deed.drops]
  | passed hn => simp [Deed.claims, Deed.returns, Deed.drops]
  | skipped hs hc => simp
  | won hr hc => rcases hr with rfl | rfl <;> simp
  | @drained m hw => by_cases hm : m = n <;> simp [Deed.claims, Deed.returns, Deed.drops, hm]
  | @returned m a ha => by_cases hm : m = n <;> simp [Deed.claims, Deed.returns, Deed.drops, hm]
  | @dropped m a ha => by_cases hm : m = n <;> simp [Deed.claims, Deed.returns, Deed.drops, hm]
  | entered hc hr => simp
  | left => simp

/-- A call that begins anew has no role. -/
theorem role_anew {u : Option (Act σ α)} (h : Job.Anew u) : u.bind Act.role? = none := by
  rcases h with rfl | ⟨e, rfl⟩
  · rfl
  · cases e <;> rfl

theorem after_role [BEq α] (s : Shared α) (j : Job σ α) : (Job.onward? (j.after s).2).bind Act.role? =
    (j.act?.bind fun v => (v.step s.chain).2).bind Act.role? := by
  rcases (Job.after_goes s j).next with h | ⟨hv, h⟩
  · rw [h]
  · rw [hv, role_anew h]
    rfl

/-- What a call has claimed it has moved out or dropped, or is about to. -/
def Consumes (ds : List (Deed α)) (u : Option (Act σ α)) : Prop :=
  ∀ n, ds.countP (Deed.claims n) = ds.countP (Deed.returns n) + ds.countP (Deed.drops n) +
    (decide (u.bind Act.role? = some (.holding, n))).toNat

theorem consumes_anew {u : Option (Act σ α)} (h : Job.Anew u) : Consumes [] u := by
  intro n
  simp [role_anew h]

theorem Consumes.after [BEq α] {s : Shared α} {ds : List (Deed α)} {j : Job σ α} (h : Consumes ds j.act?)
    (hr : ∀ v, j.act? = some v → v.Ready s.chain) :
    Consumes (ds ++ (j.deed? s).toList) (Job.onward? (j.after s).2) := by
  intro n
  have hn := h n
  rw [after_role, List.countP_append, List.countP_append, List.countP_append]
  cases hj : j.act? with
  | none =>
    rw [hj] at hn
    simpa [Job.deed?, hj] using hn
  | some v =>
    rw [hj, Option.bind_some] at hn
    have hd : j.deed? s = v.deed? s.chain := by simp [Job.deed?, hj]
    have he := (hr v hj).effect.consumes n
    rw [hd, Option.bind_some]
    omega

/-! ## All calls -/

namespace Traffic

/-- What is in a place once place `k` has `u`. -/
theorem place_set {l : List (Option (Ticket σ α))} {i k : Nat} {u v : Option (Ticket σ α)}
    (h : (l.set k u)[i]? = some v) : k = i ∧ u = v ∨ k ≠ i ∧ l[i]? = some v := by
  rw [List.getElem?_set] at h
  by_cases hik : k = i
  · rw [if_pos hik] at h
    split at h <;> cases h
    exact .inl ⟨hik, rfl⟩
  · rw [if_neg hik] at h
    exact .inr ⟨hik, h⟩

variable [BEq α]

/-- What each call has done goes with what is left of it, or with its reply. -/
structure Records (t : Traffic σ α) : Prop where
  custody : t.crew.Custody
  fits : ∀ k (u : Ticket σ α), t.calls[k]? = some (some u) → u.stage.Fits u.call (t.deedsOf k) (t.probesOf k)
  consumes : ∀ k (u : Ticket σ α), t.calls[k]? = some (some u) → Consumes (t.deedsOf k) u.act?
  fresh : ∀ k, t.calls[k]? = some none → t.deedsOf k = [] ∧ t.probesOf k = []

theorem records_start (n m : Nat) : (start n m : Traffic σ α).Records := by
  refine ⟨custody_start n m, ?_, ?_, ?_⟩
  · intro k u hk
    cases List.eq_of_mem_replicate (List.mem_of_getElem? hk)
  · intro k u hk
    cases List.eq_of_mem_replicate (List.mem_of_getElem? hk)
  · intro k _
    exact ⟨rfl, rfl⟩

variable {t : Traffic σ α}

theorem Records.enlist (h : t.Records) {k : Nat} (hk : t.calls[k]? = some none) (init : σ) (call : Call σ α) :
    (t.enlist k init call).Records := by
  refine ⟨custody_enlist h.custody init call hk, ?_, ?_, ?_⟩
  · intro i u hi
    rcases place_set hi with ⟨rfl, hu⟩ | ⟨-, hi⟩
    · cases hu
      obtain ⟨hd, hp⟩ := h.fresh k hk
      show Progress.Fits call (t.deedsOf k) (t.probesOf k) _
      rw [hd, hp]
      exact start_fits init t.shared call
    · exact h.fits i u hi
  · intro i u hi
    rcases place_set hi with ⟨rfl, hu⟩ | ⟨-, hi⟩
    · cases hu
      show Consumes (t.deedsOf k) _
      rw [(h.fresh k hk).1, act?_mk]
      exact consumes_anew (Job.start_anew init t.shared call)
    · exact h.consumes i u hi
  · intro i hi
    rcases place_set hi with ⟨-, hu⟩ | ⟨-, hi⟩
    · cases hu
    · exact h.fresh i hi

/-- The push, the pop or the walk that a call is in. -/
theorem Records.ready (h : t.Records) {k : Nat} {call : Call σ α} {j : Job σ α}
    (hk : t.calls[k]? = some (some ⟨call, .more j⟩)) (v : Act σ α) (hv : j.act? = some v) :
    v.Ready t.shared.chain := by
  have hthread : t.crew.threads[k]? = some (some v) := by
    rw [crew_thread hk]
    exact congrArg some hv
  exact h.custody.ready hthread

theorem Records.turn (h : t.Records) {k : Nat} {call : Call σ α} {j : Job σ α}
    (hk : t.calls[k]? = some (some ⟨call, .more j⟩)) : (t.turn k call j).Records := by
  have hready := h.ready hk
  refine ⟨custody_turn h.custody hk, ?_, ?_, ?_⟩
  · intro i u hi
    rw [deedsOf_turn, probesOf_turn]
    rcases place_set hi with ⟨rfl, hu⟩ | ⟨hik, hi⟩
    · cases hu
      rw [if_pos rfl, if_pos rfl]
      exact after_fits (h.fits k _ hk) hready
    · rw [if_neg hik, if_neg hik, List.append_nil, List.append_nil]
      exact h.fits i u hi
  · intro i u hi
    rw [deedsOf_turn]
    rcases place_set hi with ⟨rfl, hu⟩ | ⟨hik, hi⟩
    · cases hu
      rw [if_pos rfl, act?_mk]
      exact (h.consumes k _ hk).after hready
    · rw [if_neg hik, List.append_nil]
      exact h.consumes i u hi
  · intro i hi
    rw [deedsOf_turn, probesOf_turn]
    rcases place_set hi with ⟨-, hu⟩ | ⟨hik, hi⟩
    · cases hu
    · rw [if_neg hik, if_neg hik, List.append_nil, List.append_nil]
      exact h.fresh i hi

theorem Records.set (h : t.Records) (flag : Nat) (raised : Bool) : (t.set flag raised).Records := by
  have hcalls : (t.set flag raised).calls = t.calls := by
    rw [Traffic.set]
    split <;> rfl
  refine ⟨by rw [crew_set]; exact h.custody, ?_, ?_, ?_⟩
  · intro k u hk
    rw [deedsOf_set, probesOf_set]
    exact h.fits k u (hcalls ▸ hk)
  · intro k u hk
    rw [deedsOf_set]
    exact h.consumes k u (hcalls ▸ hk)
  · intro k hk
    rw [deedsOf_set, probesOf_set]
    exact h.fresh k (hcalls ▸ hk)

theorem records_step (t : Traffic σ α) (e : Event σ α) (h : t.Records) : (t.step e).Records :=
  step_keeps h (fun _ init call hk => h.enlist hk init call) (fun _ _ _ hk => h.turn hk) h.set
    (fun _ => ⟨h.custody, h.fits, h.consumes, h.fresh⟩) e

end Traffic

end BusyWait
