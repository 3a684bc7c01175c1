import BusyWait.Proofs.Queue.Calls
import BusyWait.Proofs.Queue.Delivery

/-
  BusyWait.Proofs.Queue.Traffic — any number of whole calls on one queue.

  Each place takes one call, and keeps it once it is over, with its reply. Each event
  begins a call, makes one access of one call, raises or lowers a flag, or lets time pass;
  so the runs are the interleavings of the accesses of all calls, and a run in which calls
  only begin where none is under way is a sequence of calls. What is not possible leaves
  all as it was, and every list of events is a run. A `len` or an `isEmpty` is over as soon
  as it begins (see `Queue.Job`), so only between whole calls does its reply say anything.

  The journal keeps what accesses have decided about nodes (`Deed`), what the steps of
  waits have come to (`Probe`), and how flags were set, in their order.

  For the chain, calls are a crew (`Traffic.crew`): an access of a job is an access of the
  push, the pop or the walk that the job is in, and the job may then begin another
  (`Job.step_goes`). So every run keeps custody (`custody_run`).
-/

namespace BusyWait

variable {σ α : Type}

/-- What a step of a wait has come to. -/
inductive Probe (α : Type) where
  /-- An attempt to dequeue is over, and has given this. -/
  | tried (found : Option α)
  /-- The flag was read. -/
  | looked (flag : Nat) (raised : Bool)
  /-- The flag was lowered by a swap, which has found this. -/
  | swapped (flag : Nat) (raised : Bool)
  /-- The clock was read. -/
  | timed (late : Bool)
  deriving DecidableEq, Repr

namespace Job

/-- What the next access of a wait comes to, if it ends a step of the wait. -/
def probe? (s : Shared α) : Job σ α → Option (Probe α)
  | .take (.attempt _) p _ | .pollTimeout (.attempt _) p _ _ =>
    match (p.step s.chain).2 with
    | .done (.ok a) => some (.tried a)
    | _ => none
  | .take (.look _) _ flag | .pollTimeout (.look _) _ flag _ => some (.looked flag (s.raised flag))
  | .take (.lower _) _ flag | .pollTimeout (.lower _) _ flag _ => some (.swapped flag (s.raised flag))
  | .pollTimeout (.clock _) _ _ deadline => some (.timed (TimedPoll.isLate deadline s.now))
  | _ => none

section
variable [BEq α]

/-- The push, the pop or the walk that a job is in. -/
def act? : Job σ α → Option (Act σ α)
  | .push p _ _ => some (.push p)
  | .pop p _ | .popMany p _ _ | .take (.attempt _) p _ | .pollTimeout (.attempt _) p _ _ => some (.pop p)
  | .walk aim w _ => some (.walk aim w)
  | .next w _ _ | .collect w _ => some (.walk .copy w)
  | .containsAll item w _ => some (.walk (.find (plain (· == item))) w)
  | .take _ _ _ | .pollTimeout _ _ _ _ => none

/-- What the next access decides about a node. -/
def deed? (s : Shared α) (j : Job σ α) : Option (Deed α) := j.act?.bind fun v => v.deed? s.chain

end

end Job

/-- A call, and what is left of it or what it has replied. -/
structure Ticket (σ α : Type) where
  call : Call σ α
  stage : Progress (Job σ α) (Reply σ α)

namespace Ticket

variable [BEq α]

def job? (u : Ticket σ α) : Option (Job σ α) :=
  match u.stage with
  | .more j => some j
  | .done _ => none

def act? (u : Ticket σ α) : Option (Act σ α) := u.job?.bind Job.act?

end Ticket

/-- An entry of the journal. -/
inductive Mark (α : Type) where
  /-- Call `k` has done this to the chain. -/
  | did (k : Nat) (d : Deed α)
  /-- A step of the wait `k` has come to this. -/
  | probed (k : Nat) (p : Probe α)
  /-- An interrupt was raised, or cleared. -/
  | set (flag : Nat) (raised : Bool)
  deriving DecidableEq, Repr

namespace Mark

def deed? : Mark α → Option (Nat × Deed α)
  | .did k d => some (k, d)
  | _ => none

/-- What call `k` has done. -/
def deedOf (k : Nat) : Mark α → Option (Deed α)
  | .did j d => if j = k then some d else none
  | _ => none

/-- What a step of the wait `k` has come to. -/
def probeOf (k : Nat) : Mark α → Option (Probe α)
  | .probed j p => if j = k then some p else none
  | _ => none

end Mark

/-- Calls on one queue, and what they have done. -/
structure Traffic (σ α : Type) where
  shared : Shared α
  /-- The call in each place that has been taken. -/
  calls : List (Option (Ticket σ α))
  journal : List (Mark α)

namespace Traffic

inductive Event (σ α : Type) where
  /-- A call begins in place `k`, with `init` as the state of its question. -/
  | begin (k : Nat) (init : σ) (call : Call σ α)
  /-- The next access of the call in place `k`. -/
  | turn (k : Nat)
  | interrupt (flag : Nat)
  | clear (flag : Nat)
  | pass (time : Nat)

/-- An empty queue with `m` interrupts, and places for `n` calls. -/
def start (n m : Nat) : Traffic σ α := ⟨⟨.empty, Array.replicate m false, 0⟩, .replicate n none, []⟩

/-- Sets a flag that there is. -/
def set (t : Traffic σ α) (flag : Nat) (raised : Bool) : Traffic σ α :=
  if flag < t.shared.flags.size then
    { t with shared := t.shared.setFlag flag raised, journal := t.journal ++ [.set flag raised] }
  else t

def pass (t : Traffic σ α) (time : Nat) : Traffic σ α :=
  { t with shared := { t.shared with now := t.shared.now + time } }

/-- What has been done by the call in place `k`, in order. -/
def deedsOf (t : Traffic σ α) (k : Nat) : List (Deed α) := t.journal.filterMap (Mark.deedOf k)

def probesOf (t : Traffic σ α) (k : Nat) : List (Probe α) := t.journal.filterMap (Mark.probeOf k)

section
variable [BEq α]

def enlist (t : Traffic σ α) (k : Nat) (init : σ) (call : Call σ α) : Traffic σ α :=
  { t with calls := t.calls.set k (some ⟨call, (Job.start init t.shared call).1⟩) }

/-- The next access of the call in place `k`, which is in `j`. -/
def turn (t : Traffic σ α) (k : Nat) (call : Call σ α) (j : Job σ α) : Traffic σ α :=
  ⟨(j.step t.shared).1, t.calls.set k (some ⟨call, (j.step t.shared).2.1⟩),
    t.journal ++ (((j.deed? t.shared).map (.did k)).toList ++ ((j.probe? t.shared).map (.probed k)).toList)⟩

def step (t : Traffic σ α) : Event σ α → Traffic σ α
  | .begin k init call =>
    match t.calls[k]? with
    | some none => t.enlist k init call
    | _ => t
  | .turn k =>
    match t.calls[k]? with
    | some (some ⟨call, .more j⟩) => t.turn k call j
    | _ => t
  | .interrupt flag => t.set flag true
  | .clear flag => t.set flag false
  | .pass time => t.pass time

def run (t : Traffic σ α) (es : List (Event σ α)) : Traffic σ α := es.foldl step t

/-- What the beginning of a call, one access, a signal and the clock keep, every event keeps. -/
theorem step_keeps {P : Traffic σ α → Prop} {t : Traffic σ α} (h : P t)
    (hb : ∀ k init call, t.calls[k]? = some none → P (t.enlist k init call))
    (ht : ∀ k call j, t.calls[k]? = some (some ⟨call, .more j⟩) → P (t.turn k call j))
    (hs : ∀ flag raised, P (t.set flag raised)) (hp : ∀ time, P (t.pass time)) (e : Event σ α) : P (t.step e) := by
  cases e with
  | begin k init call =>
    simp only [step]
    split
    · rename_i hk
      exact hb k init call hk
    · exact h
  | turn k =>
    simp only [step]
    split
    · rename_i hk
      exact ht k _ _ hk
    · exact h
  | interrupt flag => exact hs flag true
  | clear flag => exact hs flag false
  | pass time => exact hp time

theorem run_keeps {P : Traffic σ α → Prop} (hs : ∀ t e, P t → P (t.step e)) {t : Traffic σ α} (h : P t)
    (es : List (Event σ α)) : P (t.run es) := by
  induction es generalizing t with
  | nil => exact h
  | cons e es ih => exact ih (hs t e h)

end

end Traffic

/-! ## What an access of a job is for the chain -/

/-- What an operation does with its part: `f` with what is left of the part, `k` with its result. -/
def Progress.onto {τ τ' ρ ρ' : Type} (f : τ → τ') (k : ρ → Progress τ' ρ') : Progress τ ρ → Progress τ' ρ'
  | .more t => .more (f t)
  | .done r => k r

namespace Job

variable [BEq α]

/-- After a dequeue that is all there is to do. -/
def popEnd (reply : Option α → Reply σ α) (r : Except Fault (Option α)) : Progress (Job σ α) (Reply σ α) :=
  match r with
  | .ok a => .done (reply a)
  | .error f => .done (.fault f)

/-- After an attempt of a wait. -/
def takeNext (polls : UInt32) (flag : Nat) (r : Except Fault (Option α)) : Progress (Job σ α) (Reply σ α) :=
  match r with
  | .ok (some a) => .done (.result (.ok a))
  | .ok none => .more (.take (.look polls) .readHead flag)
  | .error f => .done (.fault f)

/-- After an attempt of a timed wait. -/
def timedNext (polls : UInt32) (flag : Nat) (deadline : Option Nat) (r : Except Fault (Option α)) :
    Progress (Job σ α) (Reply σ α) :=
  match r with
  | .ok (some a) => .done (.timed (.ok (some a)))
  | .ok none => .more (.pollTimeout (.look polls) .readHead flag deadline)
  | .error f => .done (.fault f)

/-- What is shared, and what is left of the job, after an access. -/
def after (s : Shared α) (j : Job σ α) : Shared α × Progress (Job σ α) (Reply σ α) := ((j.step s).1, (j.step s).2.1)

section
variable (s : Shared α)

theorem after_push (p : Push α) (rest : List α) (reply : Reply σ α) : (Job.push p rest reply).after s =
    ({ s with chain := (p.step s.chain).1 },
      (p.step s.chain).2.onto (.push · rest reply) fun _ => pushNext rest reply) := by
  simp only [after, step, Shared.onChain]
  rcases p.step s.chain with ⟨c, q | ⟨⟩⟩
  · rfl
  · cases rest <;> rfl

theorem after_pop (p : Pop) (reply : Option α → Reply σ α) : (Job.pop p reply).after s =
    ({ s with chain := (p.step s.chain).1 }, (p.step s.chain).2.onto (.pop · reply) (popEnd reply)) := by
  simp only [after, step, Shared.onChain]
  rcases p.step s.chain with ⟨c, q | f | a⟩ <;> rfl

theorem after_popMany (p : Pop) (left : Nat) (got : List (Option α)) : (Job.popMany p left got : Job σ α).after s =
    ({ s with chain := (p.step s.chain).1 }, (p.step s.chain).2.onto (.popMany · left got) (popAfter left got)) := by
  simp only [after, step, Shared.onChain]
  rcases p.step s.chain with ⟨c, q | f | a⟩
  · rfl
  · cases left <;> rfl
  · cases left <;> rfl

theorem after_walk (aim : Aim σ α) (w : Walk σ α) (reply : Walked σ α → Reply σ α) : (Job.walk aim w reply).after s =
    ({ s with chain := (w.step aim s.chain).1 },
      (w.step aim s.chain).2.onto (.walk aim · reply) fun e => .done (reply e)) := by
  simp only [after, step, Shared.onChain]
  rcases w.step aim s.chain with ⟨c, w' | e⟩ <;> rfl

theorem after_next (w : Walk σ α) (left : Nat) (got : List (Option α)) : (Job.next w left got).after s =
    ({ s with chain := (w.step .copy s.chain).1 },
      (w.step .copy s.chain).2.onto (.next · left got) (nextAfter left got)) := by
  simp only [after, step, Shared.onChain]
  rcases w.step .copy s.chain with ⟨c, w' | ⟨cursor, state, o⟩⟩
  · rfl
  · cases o <;> cases left <;> rfl

theorem after_collect (w : Walk σ α) (got : List α) : (Job.collect w got).after s =
    ({ s with chain := (w.step .copy s.chain).1 },
      (w.step .copy s.chain).2.onto (.collect · got) (collectAfter got)) := by
  simp only [after, step, Shared.onChain]
  rcases w.step .copy s.chain with ⟨c, w' | ⟨cursor, state, o⟩⟩
  · rfl
  · rcases o with (_ | a) | _ | _ | _ <;> rfl

theorem after_containsAll (item : α) (w : Walk σ α) (rest : List α) : (Job.containsAll item w rest).after s =
    ({ s with chain := (w.step (.find (plain (· == item))) s.chain).1 },
      (w.step (.find (plain (· == item))) s.chain).2.onto (.containsAll item · rest) (containsAfter rest)) := by
  simp only [after, step, Shared.onChain]
  rcases w.step (.find (plain (· == item))) s.chain with ⟨c, w' | ⟨cursor, state, o⟩⟩
  · rfl
  · rcases o with _ | (_ | _) | _ | _ <;> cases rest <;> rfl

theorem after_take (n : UInt32) (p : Pop) (flag : Nat) : (Job.take (.attempt n) p flag : Job σ α).after s =
    ({ s with chain := (p.step s.chain).1 },
      (p.step s.chain).2.onto (.take (.attempt n) · flag) (takeNext n flag)) := by
  simp only [after, step, Shared.onChain]
  rcases p.step s.chain with ⟨c, q | f | _ | a⟩ <;> rfl

theorem after_take_look (n : UInt32) (p : Pop) (flag : Nat) : (Job.take (.look n) p flag : Job σ α).after s =
    (s, .more (.take (if s.raised flag then .lower n else .attempt (morePolls n)) .readHead flag)) := rfl

theorem after_take_lower (n : UInt32) (p : Pop) (flag : Nat) : (Job.take (.lower n) p flag : Job σ α).after s =
    (s.setFlag flag false, if s.raised flag then .done (.result (.error .interrupted))
      else .more (.take (.attempt (morePolls n)) .readHead flag)) := by
  cases h : s.raised flag <;> simp [after, step, Take.step, Shared.view, h]

theorem after_timed (n : UInt32) (p : Pop) (flag : Nat) (deadline : Option Nat) :
    (Job.pollTimeout (.attempt n) p flag deadline : Job σ α).after s =
    ({ s with chain := (p.step s.chain).1 },
      (p.step s.chain).2.onto (.pollTimeout (.attempt n) · flag deadline) (timedNext n flag deadline)) := by
  simp only [after, step, Shared.onChain]
  rcases p.step s.chain with ⟨c, q | f | _ | a⟩ <;> rfl

theorem after_timed_look (n : UInt32) (p : Pop) (flag : Nat) (deadline : Option Nat) :
    (Job.pollTimeout (.look n) p flag deadline : Job σ α).after s =
    (s, .more (.pollTimeout (if s.raised flag then .lower n else .clock n) .readHead flag deadline)) := rfl

theorem after_timed_lower (n : UInt32) (p : Pop) (flag : Nat) (deadline : Option Nat) :
    (Job.pollTimeout (.lower n) p flag deadline : Job σ α).after s =
    (s.setFlag flag false, if s.raised flag then .done (.timed (.error .interrupted))
      else .more (.pollTimeout (.clock n) .readHead flag deadline)) := by
  cases h : s.raised flag <;> simp [after, step, TimedPoll.step, Shared.view, h]

theorem after_timed_clock (n : UInt32) (p : Pop) (flag : Nat) (deadline : Option Nat) :
    (Job.pollTimeout (.clock n) p flag deadline : Job σ α).after s =
    (s, if TimedPoll.isLate deadline s.now then .done (.timed (.ok none))
      else .more (.pollTimeout (.attempt (morePolls n)) .readHead flag deadline)) := by
  cases h : TimedPoll.isLate deadline s.now <;> simp [after, step, TimedPoll.step, Shared.view, h]

end

/-- The operation that is under way after an access. -/
def onward? : Progress (Job σ α) (Reply σ α) → Option (Act σ α)
  | .more j => j.act?
  | .done _ => none

/-- No operation is under way, or one has just begun. -/
def Anew (u : Option (Act σ α)) : Prop := u = none ∨ ∃ e : Crew.Errand σ α, u = some e.act

/-- A job has made an access of the operation that it is in, and goes on in it, or has come to the end of it. -/
structure Goes (s : Shared α) (j : Job σ α) (e : Shared α × Progress (Job σ α) (Reply σ α)) : Prop where
  chain : e.1.chain = j.act?.elim s.chain fun v => (v.step s.chain).1
  next : onward? e.2 = j.act?.bind (fun v => (v.step s.chain).2) ∨
    j.act?.bind (fun v => (v.step s.chain).2) = none ∧ Anew (onward? e.2)

theorem goes_part {s : Shared α} {j : Job σ α} {v : Act σ α} (hj : j.act? = some v) {τ ρ : Type} {g : τ → Act σ α}
    {x : Progress τ ρ} (hv : (v.step s.chain).2 = Act.onward g x) {f : τ → Job σ α} (hf : ∀ t, (f t).act? = some (g t))
    {k : ρ → Progress (Job σ α) (Reply σ α)} (hk : ∀ r, Anew (onward? (k r))) :
    Goes s j ({ s with chain := (v.step s.chain).1 }, x.onto f k) := by
  refine ⟨by simp [hj], ?_⟩
  simp only [hj, Option.bind_some, hv]
  cases x with
  | more t => exact .inl (hf t)
  | done r => exact .inr ⟨rfl, hk r⟩

theorem goes_still {s m : Shared α} {j : Job σ α} (hj : j.act? = none) (hm : m.chain = s.chain)
    {x : Progress (Job σ α) (Reply σ α)} (hx : Anew (onward? x)) : Goes s j (m, x) :=
  ⟨by simp [hj, hm], .inr ⟨by simp [hj], hx⟩⟩

theorem anew_done (r : Reply σ α) : Anew (onward? (.done r : Progress (Job σ α) (Reply σ α))) := .inl rfl

theorem after_goes (s : Shared α) (j : Job σ α) : Goes s j (j.after s) := by
  cases j with
  | push p rest reply =>
    rw [after_push]
    refine goes_part (v := .push p) rfl rfl (fun _ => rfl) ?_
    intro _
    cases rest with
    | nil => exact anew_done _
    | cons a rest => exact .inr ⟨.push a, rfl⟩
  | pop p reply =>
    rw [after_pop]
    refine goes_part (v := .pop p) rfl rfl (fun _ => rfl) ?_
    rintro (f | a) <;> exact anew_done _
  | popMany p left got =>
    rw [after_popMany]
    refine goes_part (v := .pop p) rfl rfl (fun _ => rfl) ?_
    rintro (f | a)
    · cases left <;> exact anew_done _
    · cases left with
      | zero => exact anew_done _
      | succ left => exact .inr ⟨.pop, rfl⟩
  | walk aim w reply =>
    rw [after_walk]
    exact goes_part (v := .walk aim w) rfl rfl (fun _ => rfl) fun _ => anew_done _
  | next w left got =>
    rw [after_next]
    refine goes_part (v := .walk .copy w) rfl rfl (fun _ => rfl) ?_
    rintro ⟨cursor, state, o⟩
    cases o <;> cases left <;> first | exact anew_done _ | exact .inr ⟨.next cursor state, rfl⟩
  | collect w got =>
    rw [after_collect]
    refine goes_part (v := .walk .copy w) rfl rfl (fun _ => rfl) ?_
    rintro ⟨cursor, state, (_ | a) | _ | _ | _⟩ <;> first | exact anew_done _ | exact .inr ⟨.next cursor state, rfl⟩
  | containsAll item w rest =>
    rw [after_containsAll]
    refine goes_part (v := .walk _ w) rfl rfl (fun _ => rfl) ?_
    rintro ⟨cursor, state, _ | (_ | _) | _ | _⟩ <;> cases rest <;>
      first | exact anew_done _ | exact .inr ⟨.walk _ state, rfl⟩
  | take t p flag =>
    cases t with
    | attempt n =>
      rw [after_take]
      refine goes_part (v := .pop p) rfl rfl (fun _ => rfl) ?_
      rintro (f | _ | a) <;> exact .inl rfl
    | look n =>
      rw [after_take_look]
      refine goes_still rfl rfl ?_
      cases s.raised flag with
      | true => exact .inl rfl
      | false => exact .inr ⟨.pop, rfl⟩
    | lower n =>
      rw [after_take_lower]
      refine goes_still (s := s) (m := s.setFlag flag false) (j := .take (.lower n) p flag) rfl rfl ?_
      cases s.raised flag with
      | true => exact .inl rfl
      | false => exact .inr ⟨.pop, rfl⟩
  | pollTimeout t p flag deadline =>
    cases t with
    | attempt n =>
      rw [after_timed]
      refine goes_part (v := .pop p) rfl rfl (fun _ => rfl) ?_
      rintro (f | _ | a) <;> exact .inl rfl
    | look n =>
      rw [after_timed_look]
      refine goes_still rfl rfl ?_
      cases s.raised flag <;> exact .inl rfl
    | lower n =>
      rw [after_timed_lower]
      refine goes_still (s := s) (m := s.setFlag flag false) (j := .pollTimeout (.lower n) p flag deadline) rfl rfl ?_
      cases s.raised flag <;> exact .inl rfl
    | clock n =>
      rw [after_timed_clock]
      refine goes_still rfl rfl ?_
      cases TimedPoll.isLate deadline s.now with
      | true => exact .inl rfl
      | false => exact .inr ⟨.pop, rfl⟩

/-- A call begins with no operation under way, or at the beginning of one. -/
theorem start_anew (init : σ) (s : Shared α) (call : Call σ α) : Anew (onward? (start init s call).1) := by
  cases call with
  | add a | offer a | offerTimeout a _ | put a => exact .inr ⟨.push a, rfl⟩
  | addAll as =>
    cases as with
    | nil => exact .inl rfl
    | cons a as => exact .inr ⟨.push a, rfl⟩
  | poll | removeFirst | take _ | pollTimeout _ _ => exact .inr ⟨.pop, rfl⟩
  | pollMany n =>
    cases n with
    | zero => exact .inl rfl
    | succ n => exact .inr ⟨.pop, rfl⟩
  | containsAll as =>
    cases as with
    | nil => exact .inl rfl
    | cons a as => exact .inr ⟨.walk _ init, rfl⟩
  | next cursor n => rcases n with _ | _ | n <;> first | exact .inl rfl | exact .inr ⟨.next cursor init, rfl⟩
  | len | isEmpty | drainTo _ | drainToMax _ _ => exact .inl rfl
  | peek | element | toList | contains _ | removeItem _ | removeAll _ | retainAll _ | retain _ | clear | any _
  | removeWhere _ _ => exact .inr ⟨.walk _ init, rfl⟩

end Job

/-! ## Custody -/

namespace Traffic

/-- What the calls are for the chain. -/
def crew [BEq α] (t : Traffic σ α) : Crew σ α :=
  ⟨t.shared.chain, t.calls.map fun u => u.bind Ticket.act?, t.journal.filterMap Mark.deed?⟩

section
variable {t : Traffic σ α} {k : Nat}

theorem deedsOf_set (flag : Nat) (raised : Bool) : (t.set flag raised).deedsOf k = t.deedsOf k := by
  rw [set]
  split
  · simp [deedsOf, Mark.deedOf]
  · rfl

theorem probesOf_set (flag : Nat) (raised : Bool) : (t.set flag raised).probesOf k = t.probesOf k := by
  rw [set]
  split
  · simp [probesOf, Mark.probeOf]
  · rfl

variable [BEq α]

theorem deedsOf_turn (i : Nat) (call : Call σ α) (j : Job σ α) :
    (t.turn i call j).deedsOf k = t.deedsOf k ++ if i = k then (j.deed? t.shared).toList else [] := by
  rw [deedsOf, deedsOf, turn, List.filterMap_append, List.filterMap_append]
  cases j.deed? t.shared <;> cases j.probe? t.shared <;> by_cases h : i = k <;> simp [Mark.deedOf, h]

theorem probesOf_turn (i : Nat) (call : Call σ α) (j : Job σ α) :
    (t.turn i call j).probesOf k = t.probesOf k ++ if i = k then (j.probe? t.shared).toList else [] := by
  rw [probesOf, probesOf, turn, List.filterMap_append, List.filterMap_append]
  cases j.deed? t.shared <;> cases j.probe? t.shared <;> by_cases h : i = k <;> simp [Mark.probeOf, h]

theorem mem_log {d : Deed α} : (k, d) ∈ t.crew.log ↔ d ∈ t.deedsOf k := by
  simp only [crew, deedsOf, List.mem_filterMap]
  constructor
  · intro h
    obtain ⟨m, hm, hd⟩ := h
    cases m <;> cases hd
    exact ⟨_, hm, if_pos rfl⟩
  · intro h
    obtain ⟨m, hm, hd⟩ := h
    cases m with
    | did j d' =>
      simp only [Mark.deedOf] at hd
      split at hd <;> cases hd
      rename_i hj
      exact ⟨_, hm, hj ▸ rfl⟩
    | probed j p => cases hd
    | set flag raised => cases hd

/-- The operation of the call in a place. -/
theorem crew_thread {u : Option (Ticket σ α)} (hk : t.calls[k]? = some u) :
    t.crew.threads[k]? = some (u.bind Ticket.act?) := by
  rw [crew, List.getElem?_map, hk]
  rfl

theorem act?_mk (call : Call σ α) (x : Progress (Job σ α) (Reply σ α)) :
    (⟨call, x⟩ : Ticket σ α).act? = Job.onward? x := by
  cases x <;> rfl

/-- A place that is given what it has is as it was. -/
theorem set_of_getElem? {β : Type} {l : List β} {u : β} (h : l[k]? = some u) : l.set k u = l := by
  obtain ⟨hlt, rfl⟩ := List.getElem?_eq_some_iff.mp h
  exact List.set_getElem_self hlt

theorem custody_enlist (h : t.crew.Custody) (init : σ) (call : Call σ α) (hk : t.calls[k]? = some none) :
    (t.enlist k init call).crew.Custody := by
  have hthread : t.crew.threads[k]? = some none := crew_thread hk
  have hcrew : (t.enlist k init call).crew =
      { t.crew with threads := t.crew.threads.set k (Job.onward? (Job.start init t.shared call).1) } := by
    simp only [crew, enlist, List.map_set, Option.bind_some, act?_mk]
  rw [hcrew]
  rcases Job.start_anew init t.shared call with hu | ⟨e, hu⟩
  · rw [hu, set_of_getElem? hthread]
    exact h
  · rw [hu]
    exact h.enlist hthread e

theorem custody_turn (h : t.crew.Custody) {call : Call σ α} {j : Job σ α}
    (hk : t.calls[k]? = some (some ⟨call, .more j⟩)) : (t.turn k call j).crew.Custody := by
  have hthread : t.crew.threads[k]? = some j.act? := crew_thread hk
  have hlog : (((j.deed? t.shared).map (Mark.did k)).toList ++
      ((j.probe? t.shared).map (Mark.probed k)).toList).filterMap Mark.deed? =
        ((j.deed? t.shared).map (k, ·)).toList := by
    cases j.deed? t.shared <;> cases j.probe? t.shared <;> rfl
  obtain ⟨hchain, hnext⟩ := Job.after_goes t.shared j
  have hcrew : (t.turn k call j).crew = ⟨j.act?.elim t.shared.chain fun v => (v.step t.shared.chain).1,
      t.crew.threads.set k (Job.onward? (j.after t.shared).2),
      t.crew.log ++ ((j.deed? t.shared).map (k, ·)).toList⟩ := by
    simp only [crew, turn, List.map_set, Option.bind_some, act?_mk, List.filterMap_append, hlog, ← hchain]
    rfl
  rw [hcrew]
  cases hj : j.act? with
  | none =>
    rw [hj] at hthread hnext
    have hdeed : j.deed? t.shared = none := by simp [Job.deed?, hj]
    have hbegin : Job.Anew (Job.onward? (j.after t.shared).2) := hnext.elim .inl (·.2)
    simp only [hdeed, Option.map_none, Option.toList_none, List.append_nil, Option.elim_none]
    rcases hbegin with hu | ⟨e, hu⟩
    · rw [hu, set_of_getElem? hthread]
      exact h
    · rw [hu]
      exact h.enlist hthread e
  | some v =>
    rw [hj] at hthread hnext
    have hdeed : j.deed? t.shared = v.deed? t.shared.chain := by simp [Job.deed?, hj]
    have hturn := h.turn hthread
    rcases hnext with hu | ⟨hv, hu | ⟨e, hu⟩⟩
    · rw [hu, hdeed]
      exact hturn
    · rw [hu, ← show (v.step t.shared.chain).2 = none from hv, hdeed]
      exact hturn
    · have hfree : (t.crew.turn k v).threads[k]? = some none := by
        rw [← show (v.step t.shared.chain).2 = none from hv]
        exact List.getElem?_set_self (List.getElem?_eq_some_iff.mp hthread).1
      have hboth := hturn.enlist hfree e
      rw [hu, hdeed]
      rw [Crew.enlist, Crew.turn, List.set_set] at hboth
      exact hboth

theorem crew_set (flag : Nat) (raised : Bool) : (t.set flag raised).crew = t.crew := by
  rw [set]
  split
  · simp [crew, Shared.setFlag, Mark.deed?]
  · rfl

end

variable [BEq α]

theorem custody_start (n m : Nat) : (start n m : Traffic σ α).crew.Custody := by
  have hcrew : (start n m : Traffic σ α).crew = Crew.start n := by simp [crew, start, Crew.start]
  rw [hcrew]
  exact Crew.custody_start n

theorem custody_step (t : Traffic σ α) (e : Event σ α) (h : t.crew.Custody) : (t.step e).crew.Custody := by
  refine step_keeps (P := fun t => t.crew.Custody) h ?_ ?_ ?_ ?_ e
  · intro k init call hk
    exact custody_enlist h init call hk
  · intro k call j hk
    exact custody_turn h hk
  · intro flag raised
    rw [crew_set]
    exact h
  · intro time
    exact h

end Traffic

end BusyWait
