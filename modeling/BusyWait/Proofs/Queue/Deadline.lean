import BusyWait.Proofs.Queue.Traffic
import Mathlib.Logic.Function.Iterate

/-
  BusyWait.Proofs.Queue.Deadline — a timed wait is an untimed one, up to its deadline.

  A wait goes round: it tries to dequeue, reads its flag, swaps the flag if it was raised,
  and, if it is timed, reads the clock. What it finds at each of these accesses is for the
  others to decide, round by round (`Round`); nothing is supposed of it, be it a queue or
  not. `Watch` is a wait under way among them.

  - `Watch.agrees`: as long as no reading of the clock is late, the timed wait is at each
    access where the other is, and has left the same behind (`Watch.next_timed` is one
    access of it).
  - `Watch.ends_iff`: in which round it ends and how (`Round.Ends`), and what it has
    recorded by then. One way, each access keeps `Watch.Sound`; the other way, the rounds
    are gone through one by one (`Watch.begins_of_failed`).
  - `timed_keeps_deadline`: both, and what they come to without a deadline or without time.
-/

namespace BusyWait

variable {σ α : Type}

/-- What a wait finds in one round: all that is shared, as the others have left it before each access. -/
structure Round (α : Type) where
  /-- At each access of its attempt to dequeue. -/
  attempt : Nat → Shared α
  look : Shared α
  lower : Shared α
  clock : Shared α

namespace Round

/-- What is left of the attempt after so many accesses. -/
def tries (r : Round α) : Nat → Progress Pop (Except Fault (Option α))
  | 0 => .more .readHead
  | n + 1 =>
    match r.tries n with
    | .more p => (p.step (r.attempt n).chain).2
    | .done x => .done x

/-- The attempt comes to an end, and this is what it has found. -/
def Finds (r : Round α) (x : Except Fault (Option α)) : Prop := ∃ n, r.tries n = .done x

/-- The flag was raised when it was read, and still when it was swapped. -/
def interrupts (r : Round α) (flag : Nat) : Bool := r.look.raised flag && r.lower.raised flag

/-- The attempt has found nothing, and nobody has signalled. -/
def Fails (r : Round α) (flag : Nat) : Prop := r.Finds (.ok none) ∧ r.interrupts flag = false

/-- The clock can show the moment that is `timeout` after `start`, and shows it or a later one. -/
def Late (r : Round α) (start timeout : Nat) : Prop := start + timeout ≤ Job.latest ∧ start + timeout ≤ r.clock.now

/-- How a timed wait ends in this round after `n` failures: its reply, and what it has recorded. -/
inductive Ends (flag start timeout : Nat) (n : UInt32) (r : Round α) : Reply σ α → List Note → Prop
  | element {a : α} : r.Finds (.ok (some a)) →
    r.Ends flag start timeout n (.timed (.ok (some a))) [.sample .queueEmptyPolls n]
  | interrupted : r.Finds (.ok none) → r.interrupts flag = true →
    r.Ends flag start timeout n (.timed (.error .interrupted)) [.event .queueInterrupted, .line (.pollInterrupted n)]
  | late : r.Fails flag → r.Late start timeout →
    r.Ends flag start timeout n (.timed (.ok none)) [.sample .queueEmptyPolls n, .event .queueTimeout]
  | broke {f : Fault} : r.Finds (.error f) → r.Ends flag start timeout n (.fault f) []

theorem Ends.finds {flag start timeout : Nat} {n : UInt32} {r : Round α} {reply : Reply σ α} {ns : List Note}
    (h : r.Ends flag start timeout n reply ns) : ∃ x, r.Finds x := by
  cases h with
  | element hx | interrupted hx _ | broke hx => exact ⟨_, hx⟩
  | late hf _ => exact ⟨_, hf.1⟩

end Round

/-- So many failed dequeues, as they are counted. -/
def pollsAfter (rounds : Nat) : UInt32 := .ofNat (min rounds 0xFFFFFFFF)

theorem toNat_pollsAfter (k : Nat) : (pollsAfter k).toNat = min k 0xFFFFFFFF :=
  UInt32.toNat_ofNat_of_lt' (by simp only [UInt32.size]; omega)

theorem pollsAfter_succ (k : Nat) : pollsAfter (k + 1) = morePolls (pollsAfter k) := by
  apply UInt32.toNat_inj.mp
  rw [morePolls, toNat_satAdd, toNat_pollsAfter, toNat_pollsAfter, UInt32.toNat_one]
  omega

/-- When a wait of `timeout` that begins at `start` is to give up, if the clock can show it. -/
def Job.due (start timeout : Nat) : Option Nat := TimedPoll.deadline? latest start timeout

namespace Round

theorem late_iff {r : Round α} {start timeout : Nat} :
    TimedPoll.isLate (Job.due start timeout) r.clock.now = true ↔ r.Late start timeout := by
  unfold Job.due TimedPoll.deadline? Late
  split <;> simp [TimedPoll.isLate, *]

theorem not_late_iff {r : Round α} {start timeout : Nat} :
    TimedPoll.isLate (Job.due start timeout) r.clock.now = false ↔ ¬r.Late start timeout :=
  Bool.eq_false_iff.trans (not_congr late_iff)

end Round

namespace Job

/-- A wait that is to dequeue. -/
def attempting : Job σ α → Bool
  | .take (.attempt _) _ _ | .pollTimeout (.attempt _) _ _ _ => true
  | _ => false

/-- A wait that is to read the clock. -/
def timing : Job σ α → Bool
  | .pollTimeout (.clock _) _ _ _ => true
  | _ => false

/-- What the next access finds. -/
def sight (r : Round α) (n : Nat) : Job σ α → Shared α
  | .take (.look _) _ _ | .pollTimeout (.look _) _ _ _ => r.look
  | .take (.lower _) _ _ | .pollTimeout (.lower _) _ _ _ => r.lower
  | .pollTimeout (.clock _) _ _ _ => r.clock
  | _ => r.attempt n

/-- After this access the wait begins another round. -/
def anew (j : Job σ α) : Progress (Job σ α) (Reply σ α) → Bool
  | .more j' => !j.attempting && j'.attempting
  | .done _ => false

end Job

/-- A wait under way. -/
structure Watch (σ α : Type) where
  /-- The rounds that are over. -/
  round : Nat
  /-- The accesses of this round. -/
  access : Nat
  notes : List Note
  /-- What each access to the queue or the flag has left. -/
  effects : List (Shared α)
  stage : Progress (Job σ α) (Reply σ α)

/-! ## The same wait with a deadline -/

def Take.timed : Take → TimedPoll
  | .attempt n => .attempt n
  | .look n => .look n
  | .lower n => .lower n

def Job.timed (deadline : Option Nat) : Job σ α → Job σ α
  | .take t p flag => .pollTimeout t.timed p flag deadline
  | j => j

/-- An element that is given is given as some element. -/
def Reply.wrapped : Reply σ α → Reply σ α
  | .result r => .timed (r.map some)
  | r => r

/-- The line tells which wait was interrupted. -/
def Note.timed : Note → Note
  | .line (.takeInterrupted n) => .line (.pollInterrupted n)
  | n => n

def Watch.timed (deadline : Option Nat) (c : Watch σ α) : Watch σ α :=
  { c with notes := c.notes.map Note.timed, stage := c.stage.map (Job.timed deadline) Reply.wrapped }

theorem Job.timed_takeNext (deadline : Option Nat) (n : UInt32) (flag : Nat)
    (x : Progress Pop (Except Fault (Option α))) :
    (x.onto (.take (.attempt n) · flag) (takeNext n flag) : Progress (Job σ α) (Reply σ α)).map (timed deadline)
        Reply.wrapped = x.onto (.pollTimeout (.attempt n) · flag deadline) (timedNext n flag deadline) := by
  rcases x with q | _ | _ | a <;> rfl

/-- What an access of an attempt records, after so many that have failed. -/
def Job.attemptNotes (polls : UInt32) : Progress Pop (Except Fault (Option α)) → List Note
  | .done (.ok (some _)) => [.sample .queueEmptyPolls polls]
  | _ => []

theorem Job.timed_attemptNotes (n : UInt32) (x : Progress Pop (Except Fault (Option α))) :
    (attemptNotes n x).map Note.timed = attemptNotes n x := by
  rcases x with q | _ | _ | a <;> rfl

theorem Job.more_of_onto {τ ρ : Type} {f : τ → Job σ α} {k : ρ → Progress (Job σ α) (Reply σ α)} {x : Progress τ ρ}
    {j : Job σ α} (h : x.onto f k = .more j) : (∃ t, j = f t) ∨ ∃ r, k r = .more j := by
  cases x with
  | more t => exact .inl ⟨t, (Progress.more.inj h).symm⟩
  | done r => exact .inr ⟨r, h⟩

theorem Job.anew_of_attempting {j : Job σ α} (h : j.attempting = true) (x : Progress (Job σ α) (Reply σ α)) :
    j.anew x = false := by
  cases x <;> simp [anew, h]

variable [BEq α]

namespace Watch

/-- A call that begins. -/
def start (init : σ) (s : Shared α) (call : Call σ α) : Watch σ α :=
  ⟨0, 0, (Job.start init s call).2, [], (Job.start init s call).1⟩

/-- The next access, in a world that is so in each round. -/
def next (world : Nat → Round α) (c : Watch σ α) : Watch σ α :=
  match c.stage with
  | .done _ => c
  | .more j =>
    match j.step (j.sight (world c.round) c.access) with
    | (s, p, ns) =>
      { round := if j.anew p then c.round + 1 else c.round
        access := if j.anew p then 0 else c.access + 1
        notes := c.notes ++ ns
        effects := if j.timing then c.effects else c.effects ++ [s]
        stage := p }

/-- After so many accesses. -/
def after (world : Nat → Round α) (c : Watch σ α) (n : Nat) : Watch σ α := (next world)^[n] c

theorem after_succ (world : Nat → Round α) (c : Watch σ α) (n : Nat) :
    after world c (n + 1) = next world (after world c n) :=
  Function.iterate_succ_apply' ..

end Watch

namespace Job

variable (s : Shared α) (n : UInt32) (p : Pop) (flag : Nat) (deadline : Option Nat)

theorem notes_take : ((take (.attempt n) p flag : Job σ α).step s).2.2 = attemptNotes n (p.step s.chain).2 := by
  simp only [step, Shared.onChain]
  rcases p.step s.chain with ⟨c, q | f | _ | a⟩ <;> rfl

theorem notes_timed :
    ((pollTimeout (.attempt n) p flag deadline : Job σ α).step s).2.2 = attemptNotes n (p.step s.chain).2 := by
  simp only [step, Shared.onChain]
  rcases p.step s.chain with ⟨c, q | f | _ | a⟩ <;> rfl

/-- A wait is the same wait after an access. -/
theorem take_goes {t : Take} {j : Job σ α} (h : ((take t p flag : Job σ α).step s).2.1 = .more j) :
    ∃ t' p', j = .take t' p' flag := by
  cases t with
  | attempt n =>
    rw [show ((take (.attempt n) p flag : Job σ α).step s).2.1 = _ from congrArg Prod.snd (after_take s n p flag)] at h
    obtain ⟨q, rfl⟩ | ⟨r, hr⟩ := more_of_onto h
    · exact ⟨_, _, rfl⟩
    · rcases r with f | _ | a <;> cases hr
      exact ⟨_, _, rfl⟩
  | look n =>
    cases h
    exact ⟨_, _, rfl⟩
  | lower n =>
    rw [show ((take (.lower n) p flag : Job σ α).step s).2.1 = _ from congrArg Prod.snd (after_take_lower s n p flag)]
      at h
    split at h
    · cases h
    · cases h
      exact ⟨_, _, rfl⟩

end Job

namespace Watch

section
variable (world : Nat → Round α) {c : Watch σ α} {n : UInt32} {p : Pop} {flag : Nat} {deadline : Option Nat}

theorem next_done {r : Reply σ α} (h : c.stage = .done r) : next world c = c := by
  simp only [next, h]

/-- An access that does not end a round. -/
theorem next_stays {j : Job σ α} {s : Shared α} {x : Progress (Job σ α) (Reply σ α)} {ns : List Note}
    (h : c.stage = .more j) (hx : j.after (j.sight (world c.round) c.access) = (s, x))
    (hn : (j.step (j.sight (world c.round) c.access)).2.2 = ns) (ha : j.anew x = false) (ht : j.timing = false) :
    next world c = ⟨c.round, c.access + 1, c.notes ++ ns, c.effects ++ [s], x⟩ := by
  obtain ⟨rfl, rfl⟩ := Prod.mk.inj hx
  subst hn
  simp only [next, h, ha, ht]
  rfl

/-- An access that ends one. -/
theorem next_turns {j : Job σ α} {s : Shared α} {x : Progress (Job σ α) (Reply σ α)} {ns : List Note}
    (h : c.stage = .more j) (hx : j.after (j.sight (world c.round) c.access) = (s, x))
    (hn : (j.step (j.sight (world c.round) c.access)).2.2 = ns) (ha : j.anew x = true) :
    next world c = ⟨c.round + 1, 0, c.notes ++ ns, if j.timing then c.effects else c.effects ++ [s], x⟩ := by
  obtain ⟨rfl, rfl⟩ := Prod.mk.inj hx
  subst hn
  simp only [next, h, ha]
  rfl

/-! The accesses of a timed wait. -/

theorem next_attempt (h : c.stage = .more (.pollTimeout (.attempt n) p flag deadline)) : next world c =
    ⟨c.round, c.access + 1,
      c.notes ++ Job.attemptNotes n (p.step ((world c.round).attempt c.access).chain).2,
      c.effects ++ [{ (world c.round).attempt c.access with
        chain := (p.step ((world c.round).attempt c.access).chain).1 }],
      (p.step ((world c.round).attempt c.access).chain).2.onto (.pollTimeout (.attempt n) · flag deadline)
        (Job.timedNext n flag deadline)⟩ :=
  next_stays world h (Job.after_timed ..) (Job.notes_timed ..) (Job.anew_of_attempting rfl _) rfl

theorem next_look (h : c.stage = .more (.pollTimeout (.look n) p flag deadline)) : next world c =
    ⟨c.round, c.access + 1, c.notes ++ [], c.effects ++ [(world c.round).look],
      .more (.pollTimeout (if (world c.round).look.raised flag then .lower n else .clock n) .readHead flag deadline)⟩ :=
  next_stays world h (Job.after_timed_look ..) rfl (by cases (world c.round).look.raised flag <;> rfl) rfl

theorem next_lower (h : c.stage = .more (.pollTimeout (.lower n) p flag deadline)) : next world c =
    ⟨c.round, c.access + 1,
      c.notes ++
        (if (world c.round).lower.raised flag then [.event .queueInterrupted, .line (.pollInterrupted n)] else []),
      c.effects ++ [(world c.round).lower.setFlag flag false],
      if (world c.round).lower.raised flag then .done (.timed (.error .interrupted))
      else .more (.pollTimeout (.clock n) .readHead flag deadline)⟩ := by
  refine next_stays world h (Job.after_timed_lower ..) ?_ ?_ rfl
  · cases hr : (world c.round).lower.raised flag <;> simp [Job.sight, Job.step, TimedPoll.step, Shared.view, hr]
  · show Job.anew _ (if (world c.round).lower.raised flag then _ else _) = false
    cases (world c.round).lower.raised flag <;> rfl

theorem next_late (h : c.stage = .more (.pollTimeout (.clock n) p flag deadline))
    (hl : TimedPoll.isLate deadline (world c.round).clock.now = true) : next world c =
    ⟨c.round, c.access + 1, c.notes ++ [.sample .queueEmptyPolls n, .event .queueTimeout], c.effects,
      .done (.timed (.ok none))⟩ := by
  simp [next, h, Job.sight, Job.step, Job.anew, Job.timing, TimedPoll.step, Shared.view, Progress.map, hl]

theorem next_early (h : c.stage = .more (.pollTimeout (.clock n) p flag deadline))
    (hl : TimedPoll.isLate deadline (world c.round).clock.now = false) : next world c =
    ⟨c.round + 1, 0, c.notes ++ [], c.effects,
      .more (.pollTimeout (.attempt (morePolls n)) .readHead flag deadline)⟩ := by
  simp [next, h, Job.sight, Job.step, Job.anew, Job.attempting, Job.timing, TimedPoll.step, Shared.view, Progress.map,
    hl]

end

/-! ## The two side by side -/

/-- Where the untimed wait has gone round the timed one has gone round too, or the clock has kept it. -/
structure Turned (world : Nat → Round α) (deadline : Option Nat) (c : Watch σ α) : Prop where
  round : (next world c).round = c.round + 1
  early : TimedPoll.isLate deadline (world c.round).clock.now = false →
    next world (next world (c.timed deadline)) = (next world c).timed deadline
  late : TimedPoll.isLate deadline (world c.round).clock.now = true →
    (next world (next world (c.timed deadline))).stage = .done (.timed (.ok none)) ∧
      (next world (next world (c.timed deadline))).effects = (next world c).effects

/-- Where the access that leaves `s` begins another round of the one, the other has come to its clock. -/
theorem turned_of_clock {world : Nat → Round α} {deadline : Option Nat} {c : Watch σ α} {n : UInt32} {flag : Nat}
    {s : Shared α}
    (hc : next world c = ⟨c.round + 1, 0, c.notes ++ [], c.effects ++ [s],
      .more (.take (.attempt (morePolls n)) .readHead flag)⟩)
    (hd : next world (c.timed deadline) = ⟨c.round, c.access + 1, c.notes.map Note.timed ++ [], c.effects ++ [s],
      .more (.pollTimeout (.clock n) .readHead flag deadline)⟩) : c.Turned world deadline := by
  have hstage : (next world (c.timed deadline)).stage = .more (.pollTimeout (.clock n) .readHead flag deadline) := by
    rw [hd]
  refine ⟨by rw [hc], ?_, ?_⟩
  · intro hl
    rw [next_early world hstage (by rw [hd]; exact hl), hd, hc]
    simp [timed, Progress.map, Job.timed, Take.timed]
  · intro hl
    rw [next_late world hstage (by rw [hd]; exact hl), hd, hc]
    exact ⟨rfl, rfl⟩

/-- An access of an untimed wait leads the timed one as far, unless it begins another round: then there is the clock to
    read first. -/
theorem next_timed (world : Nat → Round α) (deadline : Option Nat) {c : Watch σ α} {t : Take} {p : Pop} {flag : Nat}
    (h : c.stage = .more (.take t p flag)) :
    (next world c).round = c.round ∧ next world (c.timed deadline) = (next world c).timed deadline ∨
      c.Turned world deadline := by
  have ht : (c.timed deadline).stage = .more (.pollTimeout t.timed p flag deadline) := by
    rw [timed, h]
    rfl
  cases t with
  | attempt n =>
    have hc := next_stays world h (Job.after_take ..) (Job.notes_take ..) (Job.anew_of_attempting rfl _) rfl
    refine .inl ⟨by rw [hc], ?_⟩
    rw [next_attempt world ht, hc, ← Job.timed_takeNext, ← Job.timed_attemptNotes]
    simp [timed, Job.sight]
  | look n =>
    have hd := next_look world ht
    have hx := Job.after_take_look (σ := σ) (world c.round).look n p flag
    cases hr : (world c.round).look.raised flag with
    | true =>
      rw [hr, if_pos rfl] at hx
      have hc := next_stays world h hx (rfl : _ = []) rfl rfl
      refine .inl ⟨by rw [hc], ?_⟩
      rw [hd, hc]
      simp [timed, hr, Progress.map, Job.timed, Take.timed]
    | false =>
      rw [hr, if_neg Bool.false_ne_true] at hx
      exact .inr (turned_of_clock (next_turns world h hx (rfl : _ = []) rfl) (hd.trans (by simp [timed, hr])))
  | lower n =>
    have hd := next_lower world ht
    have hx := Job.after_take_lower (σ := σ) (world c.round).lower n p flag
    have hn : ((Job.take (.lower n) p flag : Job σ α).step (world c.round).lower).2.2 =
        if (world c.round).lower.raised flag then [.event .queueInterrupted, .line (.takeInterrupted n)] else [] := by
      cases hr : (world c.round).lower.raised flag <;> simp [Job.step, Take.step, Shared.view, hr]
    cases hr : (world c.round).lower.raised flag with
    | true =>
      rw [hr, if_pos rfl] at hx hn
      have hc := next_stays world h hx hn rfl rfl
      refine .inl ⟨by rw [hc], ?_⟩
      rw [hd, hc]
      simp [timed, hr, Progress.map, Reply.wrapped, Note.timed, Except.map]
    | false =>
      rw [hr, if_neg Bool.false_ne_true] at hx hn
      exact .inr (turned_of_clock (next_turns world h hx hn rfl) (hd.trans (by simp [timed, hr])))

/-- The wait with no deadline, if it still goes on. -/
def Untimed (flag : Nat) (c : Watch σ α) : Prop := ∀ j, c.stage = .more j → ∃ t p, j = .take t p flag

theorem untimed_next (world : Nat → Round α) {c : Watch σ α} {flag : Nat} (h : c.Untimed flag) :
    (next world c).Untimed flag := by
  cases hs : c.stage with
  | done r => rwa [next_done world hs]
  | more j =>
    obtain ⟨t, p, rfl⟩ := h j hs
    intro j' hj'
    simp only [next, hs] at hj'
    exact Job.take_goes _ _ _ hj'

theorem untimed_after (world : Nat → Round α) {c : Watch σ α} {flag : Nat} (h : c.Untimed flag) (m : Nat) :
    (after world c m).Untimed flag := by
  induction m with
  | zero => exact h
  | succ m ih => exact after_succ world c m ▸ untimed_next world ih

/-- As long as no reading is late, the timed wait is where the untimed one is, and has made the same accesses but for
    those of its clock, one for each round. -/
theorem agrees (world : Nat → Round α) (deadline : Option Nat) {c : Watch σ α} {flag : Nat} (h0 : c.round = 0)
    (h : c.Untimed flag) (m : Nat)
    (early : ∀ i < (after world c m).round, TimedPoll.isLate deadline (world i).clock.now = false) :
    after world (c.timed deadline) (m + (after world c m).round) = (after world c m).timed deadline := by
  induction m with
  | zero => simp [after, h0]
  | succ m ih =>
    have hu := untimed_after world h m
    rw [after_succ] at early ⊢
    generalize after world c m = d at early hu ih ⊢
    cases hs : d.stage with
    | done r =>
      rw [next_done world hs] at early ⊢
      rw [show m + 1 + d.round = m + d.round + 1 by omega, after_succ, ih early]
      exact next_done world (r := r.wrapped) (by rw [timed, hs]; rfl)
    | more j =>
      obtain ⟨t, p, rfl⟩ := hu j hs
      obtain ⟨hr, hn⟩ | ht := next_timed world deadline hs
      · rw [hr] at early ⊢
        rw [show m + 1 + d.round = m + d.round + 1 by omega, after_succ, ih early, hn]
      · rw [ht.round] at early ⊢
        rw [show m + 1 + (d.round + 1) = m + d.round + 1 + 1 by omega, after_succ, after_succ,
          ih fun i hi => early i (by omega)]
        exact ht.early (early d.round (by omega))

/-- Where the untimed wait begins another round though its time is up, the timed one has given up. -/
theorem expires (world : Nat → Round α) (deadline : Option Nat) {c : Watch σ α} {flag : Nat} (h0 : c.round = 0)
    (h : c.Untimed flag) (m : Nat) (hr : (after world c (m + 1)).round = (after world c m).round + 1)
    (early : ∀ i < (after world c m).round, TimedPoll.isLate deadline (world i).clock.now = false)
    (late : TimedPoll.isLate deadline (world (after world c m).round).clock.now = true) :
    (after world (c.timed deadline) (m + 1 + (after world c (m + 1)).round)).stage = .done (.timed (.ok none)) ∧
      (after world (c.timed deadline) (m + 1 + (after world c (m + 1)).round)).effects =
        (after world c (m + 1)).effects := by
  have hu := untimed_after world h m
  have ha := agrees world deadline h0 h m early
  rw [after_succ] at hr
  rw [show m + 1 + (after world c (m + 1)).round = m + (after world c m).round + 1 + 1 by rw [after_succ, hr]; omega,
    after_succ, after_succ, after_succ, ha]
  generalize after world c m = d at hr late hu
  cases hs : d.stage with
  | done r =>
    rw [next_done world hs] at hr
    omega
  | more j =>
    obtain ⟨t, p, rfl⟩ := hu j hs
    obtain ⟨hn, -⟩ | ht := next_timed world deadline hs
    · omega
    · exact ht.late late

end Watch

/-! ## How a timed wait ends -/

/-- Where a timed wait is after so many accesses of a round. -/
inductive Round.Reached (flag start timeout : Nat) (n : UInt32) (r : Round α) :
    Nat → Progress (Job σ α) (Reply σ α) → List Note → Prop
  | attempt {i : Nat} {p : Pop} : r.tries i = .more p →
    r.Reached flag start timeout n i (.more (.pollTimeout (.attempt n) p flag (Job.due start timeout))) []
  | look {i : Nat} : r.Finds (.ok none) →
    r.Reached flag start timeout n i (.more (.pollTimeout (.look n) .readHead flag (Job.due start timeout))) []
  | lower {i : Nat} : r.Finds (.ok none) → r.look.raised flag = true →
    r.Reached flag start timeout n i (.more (.pollTimeout (.lower n) .readHead flag (Job.due start timeout))) []
  | clock {i : Nat} : r.Fails flag →
    r.Reached flag start timeout n i (.more (.pollTimeout (.clock n) .readHead flag (Job.due start timeout))) []
  | ended {i : Nat} {reply : Reply σ α} {ns : List Note} : r.Ends flag start timeout n reply ns →
    r.Reached flag start timeout n i (.done reply) ns

namespace Watch

/-- The rounds of a timed wait that are over have come to nothing in time, and it is where they have led it. -/
structure Sound (world : Nat → Round α) (flag : Nat) (start timeout : Nat) (c : Watch σ α) : Prop where
  failed : ∀ i < c.round, (world i).Fails flag ∧ ¬(world i).Late start timeout
  reached : (world c.round).Reached flag start timeout (pollsAfter c.round) c.access c.stage c.notes

variable {world : Nat → Round α} {flag : Nat} {start timeout : Nat}

theorem sound_next {c : Watch σ α} (h : c.Sound world flag start timeout) :
    (next world c).Sound world flag start timeout := by
  obtain ⟨hf, hr⟩ := h
  generalize hs : c.stage = x at hr
  generalize hn : c.notes = ns at hr
  cases hr with
  | attempt ht =>
    rename_i p
    have hnext := next_attempt world hs
    rw [hn, List.nil_append] at hnext
    have htries : (world c.round).tries (c.access + 1) = (p.step ((world c.round).attempt c.access).chain).2 := by
      simp [Round.tries, ht]
    generalize (p.step ((world c.round).attempt c.access).chain).2 = x at hnext htries
    rw [hnext]
    refine ⟨hf, ?_⟩
    rcases x with q | f | _ | a
    · exact .attempt htries
    · exact .ended (.broke ⟨_, htries⟩)
    · exact .look ⟨_, htries⟩
    · exact .ended (.element ⟨_, htries⟩)
  | look ht =>
    rw [next_look world hs, hn]
    refine ⟨hf, ?_⟩
    cases hl : (world c.round).look.raised flag with
    | true => exact .lower ht hl
    | false => exact .clock ⟨ht, by simp [Round.interrupts, hl]⟩
  | lower ht hl =>
    rw [next_lower world hs, hn]
    refine ⟨hf, ?_⟩
    cases hw : (world c.round).lower.raised flag with
    | true => exact .ended (.interrupted ht (by simp [Round.interrupts, hl, hw]))
    | false => exact .clock ⟨ht, by simp [Round.interrupts, hw]⟩
  | clock ht =>
    by_cases hl : (world c.round).Late start timeout
    · rw [next_late world hs (Round.late_iff.mpr hl), hn]
      exact ⟨hf, .ended (.late ht hl)⟩
    · rw [next_early world hs (Round.not_late_iff.mpr hl), hn, ← pollsAfter_succ]
      refine ⟨fun i hi => ?_, .attempt rfl⟩
      obtain hi | rfl := Nat.lt_succ_iff_lt_or_eq.mp hi
      · exact hf i hi
      · exact ⟨ht, hl⟩
  | ended he =>
    rw [next_done world hs]
    exact ⟨hf, by rw [hs, hn]; exact .ended he⟩

theorem sound_after {c : Watch σ α} (h : c.Sound world flag start timeout) (m : Nat) :
    (after world c m).Sound world flag start timeout := by
  induction m with
  | zero => exact h
  | succ m ih => exact after_succ world c m ▸ sound_next ih

/-- The wait comes to be so. -/
def Comes (world : Nat → Round α) (c d : Watch σ α) : Prop := ∃ m, after world c m = d

theorem Comes.next {c d e : Watch σ α} (h : Comes world c d) (he : d.next world = e) : Comes world c e := by
  obtain ⟨m, rfl⟩ := h
  exact ⟨m + 1, (after_succ world c m).trans he⟩

/-- It comes to this step of round `k`, and has recorded nothing. -/
def ComesTo (world : Nat → Round α) (flag start timeout : Nat) (c : Watch σ α) (k access : Nat) (t : TimedPoll)
    (p : Pop) : Prop :=
  ∃ es, Comes world c ⟨k, access, [], es, .more (.pollTimeout t p flag (Job.due start timeout))⟩

/-- It comes to begin round `k`. -/
def Begins (world : Nat → Round α) (flag start timeout : Nat) (c : Watch σ α) (k : Nat) : Prop :=
  c.ComesTo world flag start timeout k 0 (.attempt (pollsAfter k)) .readHead

variable {c : Watch σ α} {k : Nat}

/-- As long as the attempt goes on, the wait is in it. -/
theorem Begins.tries (h : Begins world flag start timeout c k) {i : Nat} {p : Pop} (hp : (world k).tries i = .more p) :
    c.ComesTo world flag start timeout k i (.attempt (pollsAfter k)) p := by
  induction i generalizing p with
  | zero =>
    cases hp
    exact h
  | succ i ih =>
    simp only [Round.tries] at hp
    split at hp
    · rename_i q hq
      obtain ⟨es, hc⟩ := ih hq
      have hnext := hc.next (next_attempt world rfl)
      rw [hp] at hnext
      exact ⟨_, hnext⟩
    · cases hp

/-- When it is over, the wait goes by what it has found. -/
theorem Begins.finds (h : Begins world flag start timeout c k) {x : Except Fault (Option α)} (hx : (world k).Finds x) :
    ∃ i es, Comes world c ⟨k, i, Job.attemptNotes (pollsAfter k) (.done x), es,
      Job.timedNext (pollsAfter k) flag (Job.due start timeout) x⟩ := by
  obtain ⟨i, hi⟩ := hx
  induction i with
  | zero => cases hi
  | succ i ih =>
    simp only [Round.tries] at hi
    split at hi
    · rename_i q hq
      obtain ⟨es, hc⟩ := h.tries hq
      have hnext := hc.next (next_attempt world rfl)
      rw [hi] at hnext
      exact ⟨_, _, hnext⟩
    · rename_i hq
      cases hi
      exact ih hq

/-- After a dequeue that has found nothing and a raised flag, the wait goes by what it swaps. -/
theorem Begins.lower (h : Begins world flag start timeout c k) (hx : (world k).Finds (.ok none))
    (hl : (world k).look.raised flag = true) :
    ∃ i, c.ComesTo world flag start timeout k i (.lower (pollsAfter k)) .readHead := by
  obtain ⟨i, es, hc⟩ := h.finds hx
  have hlook := hc.next (next_look world rfl)
  simp only [hl] at hlook
  exact ⟨_, _, hlook⟩

/-- A round that has come to nothing comes to the clock. -/
theorem Begins.clock (h : Begins world flag start timeout c k) (hf : (world k).Fails flag) :
    ∃ i, c.ComesTo world flag start timeout k i (.clock (pollsAfter k)) .readHead := by
  obtain ⟨hx, hi⟩ := hf
  cases hl : (world k).look.raised flag with
  | false =>
    obtain ⟨i, es, hc⟩ := h.finds hx
    have hlook := hc.next (next_look world rfl)
    simp only [hl] at hlook
    exact ⟨_, _, hlook⟩
  | true =>
    obtain ⟨i, es, hc⟩ := h.lower hx hl
    have hw : (world k).lower.raised flag = false := by simpa [Round.interrupts, hl] using hi
    have hlower := hc.next (next_lower world rfl)
    simp only [hw] at hlower
    exact ⟨_, _, hlower⟩

theorem begins_of_failed (h0 : Begins world flag start timeout c 0)
    (hf : ∀ i < k, (world i).Fails flag ∧ ¬(world i).Late start timeout) :
    Begins world flag start timeout c k := by
  induction k with
  | zero => exact h0
  | succ k ih =>
    obtain ⟨i, es, hc⟩ := (ih fun i hi => hf i (by omega)).clock (hf k (by omega)).1
    have hnext := hc.next (next_early world rfl (Round.not_late_iff.mpr (hf k (by omega)).2))
    rw [← pollsAfter_succ] at hnext
    exact ⟨_, hnext⟩

theorem Comes.ends {c d : Watch σ α} {r : Reply σ α} (h : Comes world c d) (hd : d.stage = .done r) :
    ∃ m, (after world c m).stage = .done r ∧ (after world c m).notes = d.notes ∧ (after world c m).round = d.round := by
  obtain ⟨m, rfl⟩ := h
  exact ⟨m, hd, rfl, rfl⟩

theorem Begins.ends (h : Begins world flag start timeout c k) {r : Reply σ α} {ns : List Note}
    (he : (world k).Ends flag start timeout (pollsAfter k) r ns) :
    ∃ m, (after world c m).stage = .done r ∧ (after world c m).notes = ns ∧ (after world c m).round = k := by
  cases he with
  | element hx | broke hx =>
    obtain ⟨_, _, hc⟩ := h.finds hx
    exact hc.ends rfl
  | interrupted hx hi =>
    obtain ⟨hl, hw⟩ := Bool.and_eq_true_iff.mp hi
    obtain ⟨_, _, hc⟩ := h.lower hx hl
    have hlower := hc.next (next_lower world rfl)
    simp only [hw] at hlower
    exact hlower.ends rfl
  | late hf hl =>
    obtain ⟨_, _, hc⟩ := h.clock hf
    exact (hc.next (next_late world rfl (Round.late_iff.mpr hl))).ends rfl

/-- A timed wait ends in the first round that ends one, and in no other way. -/
theorem ends_iff (hs : c.Sound world flag start timeout) (h0 : Begins world flag start timeout c 0) (k : Nat)
    (r : Reply σ α) (ns : List Note) :
    (∃ m, (after world c m).stage = .done r ∧ (after world c m).notes = ns ∧ (after world c m).round = k) ↔
      (∀ i < k, (world i).Fails flag ∧ ¬(world i).Late start timeout) ∧
        (world k).Ends flag start timeout (pollsAfter k) r ns := by
  constructor
  · rintro ⟨m, hr, rfl, rfl⟩
    obtain ⟨hf, hreached⟩ := sound_after hs m
    rw [hr] at hreached
    cases hreached with
    | ended he => exact ⟨hf, he⟩
  · rintro ⟨hf, he⟩
    exact (begins_of_failed h0 hf).ends he

/-- The round whose reading is late is the last. -/
theorem Sound.round_le {m : Nat} (hs : (after world c m).Sound world flag start timeout)
    (hl : (world k).Late start timeout) : (after world c m).round ≤ k :=
  not_lt.mp fun hk => (hs.failed k hk).2 hl

/-- It is, if the dequeue of that round is not kept waiting. -/
theorem Begins.ends_late (h : Begins world flag start timeout c k) {x : Except Fault (Option α)}
    (hx : (world k).Finds x) (hl : (world k).Late start timeout) : ∃ m r, (after world c m).stage = .done r := by
  have done {r : Reply σ α} {ns : List Note} (he : (world k).Ends flag start timeout (pollsAfter k) r ns) :
      ∃ m r, (after world c m).stage = .done r := by
    obtain ⟨m, hr, -⟩ := h.ends he
    exact ⟨m, r, hr⟩
  rcases x with f | _ | a
  · exact done (.broke hx)
  · cases hi : (world k).interrupts flag with
    | true => exact done (.interrupted hx hi)
    | false => exact done (.late ⟨hx, hi⟩ hl)
  · exact done (.element hx)

end Watch

/-- What a timed wait does among others, beside the same wait without a deadline. -/
structure KeepsTime (world : Nat → Round α) (flag start timeout : Nat) (take poll : Watch σ α) : Prop where
  /-- Until a reading is late, the one is where the other is, has left the same behind at each access of the queue and
      of the flag, and has recorded the same. -/
  agrees (m : Nat) (early : ∀ i < (take.after world m).round, ¬(world i).Late start timeout) :
    poll.after world (m + (take.after world m).round) = (take.after world m).timed (Job.due start timeout)
  /-- It gives up where the other begins another round though the time is up. -/
  expires (m : Nat) (turns : (take.after world (m + 1)).round = (take.after world m).round + 1)
    (early : ∀ i < (take.after world m).round, ¬(world i).Late start timeout)
    (late : (world (take.after world m).round).Late start timeout) :
    (poll.after world (m + 1 + (take.after world (m + 1)).round)).stage = .done (.timed (.ok none)) ∧
      (poll.after world (m + 1 + (take.after world (m + 1)).round)).effects = (take.after world (m + 1)).effects
  /-- It ends in the first round that ends one, and in no other way. -/
  ends (k : Nat) (r : Reply σ α) (ns : List Note) :
    (∃ m, (poll.after world m).stage = .done r ∧ (poll.after world m).notes = ns ∧ (poll.after world m).round = k) ↔
      (∀ i < k, (world i).Fails flag ∧ ¬(world i).Late start timeout) ∧
        (world k).Ends flag start timeout (pollsAfter k) r ns
  /-- It does not end before it has tried to dequeue. -/
  tries (m : Nat) (r : Reply σ α) (done : (poll.after world m).stage = .done r) : ∃ x, (world 0).Finds x
  /-- To read the clock changes nothing. -/
  reads (m : Nat) (j : Job σ α) (more : (poll.after world m).stage = .more j) (timing : j.timing = true)
    (s : Shared α) : (j.step s).1 = s
  /-- Without a moment at which to give up, it is the other, for ever. -/
  endless (far : Job.latest < start + timeout) (m : Nat) :
    poll.after world (m + (take.after world m).round) = (take.after world m).timed none
  /-- Without time it stays in its first round, if the clock does not go back, and ends there as soon as its dequeue
      does. -/
  instant (timeless : timeout = 0) (now : start ≤ Job.latest) (later : start ≤ (world 0).clock.now) :
    (∀ m, (poll.after world m).round = 0) ∧
      ∀ x, (world 0).Finds x → ∃ m r, (poll.after world m).stage = .done r

theorem Job.step_timing {j : Job σ α} (h : j.timing = true) (s : Shared α) : (j.step s).1 = s := by
  unfold Job.timing at h
  split at h
  · rfl
  · cases h

/-- A timed wait is an untimed one until its time is up, whatever the others do. -/
theorem timed_keeps_deadline (init : σ) (s : Shared α) (timeout : Duration) (flag : Nat) (world : Nat → Round α) :
    KeepsTime world flag s.now timeout.total (Watch.start init s (.take flag))
      (Watch.start init s (.pollTimeout timeout flag)) := by
  have hu : (Watch.start init s (.take flag)).Untimed flag := by
    intro j hj
    cases hj
    exact ⟨_, _, rfl⟩
  have hs : (Watch.start init s (.pollTimeout timeout flag)).Sound world flag s.now timeout.total :=
    ⟨fun i hi => absurd hi (Nat.not_lt_zero i), .attempt rfl⟩
  have hb : Watch.Begins world flag s.now timeout.total (Watch.start init s (.pollTimeout timeout flag)) 0 :=
    ⟨[], 0, rfl⟩
  exact {
    agrees := fun m early => Watch.agrees world _ rfl hu m fun i hi => Round.not_late_iff.mpr (early i hi)
    expires := fun m turns early late =>
      Watch.expires world _ rfl hu m turns (fun i hi => Round.not_late_iff.mpr (early i hi)) (Round.late_iff.mpr late)
    ends := Watch.ends_iff hs hb
    tries := fun m r done => by
      obtain ⟨hf, he⟩ := (Watch.ends_iff hs hb _ r _).mp ⟨m, done, rfl, rfl⟩
      generalize (Watch.after world _ m).round = k at hf he
      cases k with
      | zero => exact he.finds
      | succ k => exact ⟨_, (hf 0 (Nat.succ_pos k)).1.1⟩
    reads := fun m j more timing => Job.step_timing timing
    endless := fun far m => by
      have hd : Job.due s.now timeout.total = none := if_neg (by omega)
      have ha : (Watch.start init s (.pollTimeout timeout flag)).after world _ = Watch.timed (Job.due ..) _ :=
        Watch.agrees world _ rfl hu m fun i hi => Round.not_late_iff.mpr fun hl => absurd hl.1 (by omega)
      rwa [hd] at ha
    instant := fun timeless now later => by
      have hl : (world 0).Late s.now timeout.total := by
        rw [timeless]
        exact ⟨now, later⟩
      exact ⟨fun m => Nat.le_zero.mp ((Watch.sound_after hs m).round_le hl), fun x hx => hb.ends_late hx hl⟩ }

/-- The clock shows the round: with two nanoseconds the third round is the last. -/
example :
    let world : Nat → Round Nat := fun k => ⟨fun _ => .empty, .empty, .empty, { Shared.empty with now := k }⟩
    let poll := (Watch.start () (.empty : Shared Nat) (.pollTimeout ⟨0, 2⟩ 0)).after world 12
    poll.round = 2 ∧ poll.notes = [.sample .queueEmptyPolls 2, .event .queueTimeout] := by decide

end BusyWait
