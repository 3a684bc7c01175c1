import BusyWait.Queue.Chain

/-
  BusyWait.Queue.Walk — looking at elements in place, one access at a time.

  A walk goes from node to node and enters each as a reader of its word; a claimed node
  is passed by. Inside, it copies the element or asks a question about it, and leaves.
  - `copy` ends at the first element it gets into,
  - `find` ends at the first element of which the answer is yes,
  - `remove` claims each such element, waits for its readers to leave and drops it, up to
    a limit; an element that somebody else has claimed meanwhile is passed by. A claim that
    cannot count its polls any more breaks off, and the walk with it (`lost`).

  A question may keep a state from one element to the next, and may break off; the walk
  then leaves the node and ends.
-/

namespace BusyWait

/-- A question about an element: the state after it, and the answer. -/
abbrev Ask (σ α : Type) := σ → α → σ × Except Fault Bool

inductive Aim (σ α : Type) where
  | copy
  | find (ask : Ask σ α)
  /-- No limit if there is none. -/
  | remove (ask : Ask σ α) (limit : Option Nat)

/-- What a walk takes with it out of a node. -/
inductive Sight (α : Type) where
  | copied (a : α)
  | answered (b : Bool)
  | broke (f : Fault)
  deriving DecidableEq, Repr

inductive Stage (α : Type) where
  /-- Begins at the head. -/
  | readHead
  /-- On to the node after the cursor. -/
  | seek
  | enter (e : Entry)
  | inside
  | leave (s : Sight α)
  | claim
  | drain (d : Drain)
  /-- It makes no access any more, and the element is still its own. -/
  | lost
  | drop
  deriving DecidableEq, Repr

structure Walk (σ α : Type) where
  stage : Stage α
  /-- The node reached last. -/
  cursor : Nat
  state : σ
  removed : Nat
  deriving DecidableEq, Repr

inductive Outcome (α : Type) where
  | copied (a : Option α)
  | found (b : Bool)
  | removed (n : Nat)
  | broke (f : Fault)
  deriving DecidableEq, Repr

/-- How a walk ends: where, in which state, and with what. -/
structure Walked (σ α : Type) where
  cursor : Nat
  state : σ
  outcome : Outcome α
  deriving DecidableEq, Repr

namespace Walk

variable {σ α : Type}

def start (s : σ) : Walk σ α := ⟨.readHead, 0, s, 0⟩

/-- A walk that goes on behind `cursor`. -/
def resume (cursor : Nat) (s : σ) : Walk σ α := ⟨.seek, cursor, s, 0⟩

def finish (w : Walk σ α) (o : Outcome α) : Walked σ α := ⟨w.cursor, w.state, o⟩

/-- The outcome where no node is left. -/
def atEnd (w : Walk σ α) : Aim σ α → Outcome α
  | .copy => .copied none
  | .find _ => .found false
  | .remove _ _ => .removed w.removed

/-- A removal has all it may have. -/
def sated (w : Walk σ α) : Aim σ α → Bool
  | .remove _ (some limit) => limit ≤ w.removed
  | _ => false

def goTo (w : Walk σ α) (s : Stage α) : Walk σ α := { w with stage := s }

/-- What the walk sees in a node, and the state after it. -/
def see (w : Walk σ α) (a : α) : Aim σ α → σ × Sight α
  | .copy => (w.state, .copied a)
  | .find ask | .remove ask _ =>
    match ask w.state a with
    | (s, .ok b) => (s, .answered b)
    | (s, .error f) => (s, .broke f)

/-- Where the walk goes with what it saw. -/
def afterSight (w : Walk σ α) : Sight α → Aim σ α → Progress (Walk σ α) (Walked σ α)
  | .copied a, _ => .done (w.finish (.copied (some a)))
  | .broke f, _ => .done (w.finish (.broke f))
  | .answered false, _ => .more (w.goTo .seek)
  | .answered true, .remove _ _ => .more (w.goTo .claim)
  | .answered true, _ => .done (w.finish (.found true))

def step (aim : Aim σ α) (c : Chain α) (w : Walk σ α) : Chain α × Progress (Walk σ α) (Walked σ α) :=
  let n := c.node w.cursor
  match w.stage with
  | .readHead =>
    if w.sated aim then (c, .done (w.finish (w.atEnd aim)))
    else (c, .more { w with stage := .seek, cursor := c.head })
  | .seek =>
    match n.next with
    | some j => (c, .more { w with stage := .enter .look, cursor := j })
    | none => (c, .done (w.finish (w.atEnd aim)))
  | .enter e =>
    match e.step n.word with
    | (v, .more e) => (c.setWord w.cursor v, .more (w.goTo (.enter e)))
    | (v, .done (.ok true)) => (c.setWord w.cursor v, .more (w.goTo .inside))
    | (v, .done (.ok false)) => (c.setWord w.cursor v, .more (w.goTo .seek))
    | (v, .done (.error f)) => (c.setWord w.cursor v, .done (w.finish (.broke f)))
  | .inside =>
    match n.slot with
    | .holds a =>
      let (s, seen) := w.see a aim
      (c, .more { w with stage := .leave seen, state := s })
    | _ => (c, .done (w.finish (.broke .absent)))
  | .leave seen =>
    match n.word.release with
    | (v, .ok ()) => (c.setWord w.cursor v, w.afterSight seen aim)
    | (v, .error f) => (c.setWord w.cursor v, .done (w.finish (.broke f)))
  | .claim =>
    let (v, mine) := n.word.claim
    (c.setWord w.cursor v, .more (w.goTo (if mine then .drain ⟨0⟩ else .seek)))
  | .drain d =>
    match (d.step n.word).2 with
    | .more d => (c, .more (w.goTo (.drain d)))
    | .done (.ok _) => (c, .more (w.goTo .drop))
    | .done (.error _) => (c, .more (w.goTo .lost))
  | .lost => (c, .more w)
  | .drop =>
    match n.slot with
    | .holds _ =>
      let w := { w with stage := .seek, removed := w.removed + 1 }
      (c.setSlot w.cursor .dropped, if w.sated aim then .done (w.finish (w.atEnd aim)) else .more w)
    | _ => (c, .done (w.finish (.broke .absent)))

section
variable {c : Chain α} {n : Nat} (aim : Aim σ α) (d : Drain) (s : σ) (m : Nat)

theorem step_drain_owned (h : (c.node n).word = .owned) :
    step aim c ⟨.drain d, n, s, m⟩ = (c, .more ⟨.drop, n, s, m⟩) := by
  simp only [step, h, Drain.step_owned, goTo]

theorem step_drain_busy (h : (c.node n).word ≠ .owned) :
    (∃ d', step aim c ⟨.drain d, n, s, m⟩ = (c, .more ⟨.drain d', n, s, m⟩)) ∨
      step aim c ⟨.drain d, n, s, m⟩ = (c, .more ⟨.lost, n, s, m⟩) := by
  rcases Drain.step_busy h d with ⟨d', hd⟩ | hd
  · exact .inl ⟨d', by simp only [step, hd, goTo]⟩
  · exact .inr (by simp only [step, hd, goTo])

end

/-- Somebody is looking at the claimed element, or the claim has broken off. -/
def waits (c : Chain α) (w : Walk σ α) : Bool :=
  match w.stage with
  | .drain d => d.waits (c.node w.cursor).word
  | .lost => true
  | _ => false

/-- The element that the walk is about to look at. -/
def looksAt? (c : Chain α) (w : Walk σ α) : Option α :=
  match w.stage with
  | .inside => (c.node w.cursor).slot.element?
  | _ => none

end Walk

end BusyWait
