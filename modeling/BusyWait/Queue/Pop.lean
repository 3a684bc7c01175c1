import BusyWait.Queue.Push

/-
  BusyWait.Queue.Pop — taking the first element out, one access at a time.

  The head moves forward by one node; if the tail still points to the node left behind,
  it is moved along; the node left behind is retired. Only then does the pop try to claim
  the element of the node that is now the head. If somebody else has claimed it, the pop
  starts over. A claim waits for those who look at the element, and then the element is
  moved out. A claim that cannot count its polls any more breaks off, and the pop with it
  (`lost`): it makes no access any more, and the element is still its own.
-/

namespace BusyWait

inductive Pop where
  | readHead
  | readNext (head : Nat)
  | moveHead (head next : Nat)
  | readTail (head next : Nat)
  | fixTail (head next : Nat)
  | retire (head next : Nat)
  | claim (node : Nat)
  | drain (node : Nat) (d : Drain)
  | lost (node : Nat)
  | take (node : Nat)
  deriving DecidableEq, Repr

namespace Pop

variable {α : Type}

def step (c : Chain α) : Pop → Chain α × Progress Pop (Except Fault (Option α))
  | .readHead => (c, .more (.readNext c.head))
  | .readNext h =>
    match (c.node h).next with
    | some n => (c, .more (.moveHead h n))
    | none => (c, .done (.ok none))
  | .moveHead h n => if c.head = h then (c.swapHead h n, .more (.readTail h n)) else (c, .more .readHead)
  | .readTail h n => (c, .more (if c.tail = h then .fixTail h n else .retire h n))
  | .fixTail h n => (c.swapTail h n, .more (.retire h n))
  | .retire h n => (c.modify h fun m => { m with retired := true }, .more (.claim n))
  | .claim n =>
    let (w, mine) := (c.node n).word.claim
    (c.setWord n w, .more (if mine then .drain n ⟨0⟩ else .readHead))
  | .drain n d =>
    match (d.step (c.node n).word).2 with
    | .more d => (c, .more (.drain n d))
    | .done (.ok _) => (c, .more (.take n))
    | .done (.error _) => (c, .more (.lost n))
  | .lost n => (c, .more (.lost n))
  | .take n =>
    match (c.node n).slot with
    | .holds a => (c.setSlot n .moved, .done (.ok (some a)))
    | _ => (c, .done (.error .absent))

theorem step_drain_chain (c : Chain α) (n : Nat) (d : Drain) : (step c (.drain n d)).1 = c := by
  simp only [step]
  split <;> rfl

theorem step_drain_owned {c : Chain α} {n : Nat} (h : (c.node n).word = .owned) (d : Drain) :
    step c (.drain n d) = (c, .more (.take n)) := by
  simp only [step, h, Drain.step_owned]

theorem step_drain_busy {c : Chain α} {n : Nat} (h : (c.node n).word ≠ .owned) (d : Drain) :
    (∃ d', step c (.drain n d) = (c, .more (.drain n d'))) ∨ step c (.drain n d) = (c, .more (.lost n)) := by
  rcases Drain.step_busy h d with ⟨d', hd⟩ | hd
  · exact .inl ⟨d', by simp only [step, hd]⟩
  · exact .inr (by simp only [step, hd])

/-- Somebody is looking at the claimed element, or the claim has broken off. -/
def waits (c : Chain α) : Pop → Bool
  | .drain n d => d.waits (c.node n).word
  | .lost _ => true
  | _ => false

/-- A dequeue that would find no node after the head. -/
def idle (c : Chain α) : Pop → Bool
  | .readHead => (c.node c.head).next.isNone
  | _ => false

end Pop

end BusyWait
