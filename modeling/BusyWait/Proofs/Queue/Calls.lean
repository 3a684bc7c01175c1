import BusyWait.Proofs.Queue.Alone
import BusyWait.Proofs.Queue.Questions

/-
  BusyWait.Proofs.Queue.Calls — a call of a queue operation with nobody else acting.

  `perform` runs a call until it ends or can only wait. On a quiet chain each kind of job
  ends within its bound, and leaves what its parts leave: a push, a pop or a walk at a
  time. Only `take` and a timed poll can be left waiting, and only where no element is.

  - `perform_quiet`: whatever the call, the chain is quiet again, and a later one.
  - `perform_replies`: it gets to a reply, unless it waits for an element and there is none.
-/

namespace BusyWait

variable {σ α : Type} [BEq α]

open Chain

/-- It waits for an element where there is none. -/
def Call.awaits : Call σ α → Bool
  | .take _ | .pollTimeout _ _ => true
  | _ => false

/-- A call run until it ends, or until it can only wait. -/
def Shared.perform (init : σ) (s : Shared α) (call : Call σ α) : Shared α × Option (Reply σ α) :=
  match (Job.start init s call).1 with
  | .done r => (s, some r)
  | .more j =>
    match Job.run (fun _ _ => false) s j with
    | ((s, _), p) => (s, p.result?)

namespace Job

/-- Where a job can only wait. -/
def rests (s : Shared α × List Note) (j : Job σ α) : Bool := j.stuck s.1 || false

/-- A job alone gets to a result, or to where it can only wait. -/
def Lands (s : Shared α) (j : Job σ α) (s' : Shared α) (r : Option (Reply σ α)) : Prop :=
  ∃ ns p, run (fun _ _ => false) s j = ((s', ns), p) ∧ p.result? = r

theorem Lands.of_done {n : Nat} {s s' : Shared α} {j : Job σ α} {ns : List Note} {r : Reply σ α}
    (h : Reaches noted rests n (s, []) j ((s', ns), .done r)) (hn : n ≤ j.bound s) : Lands s j s' (some r) :=
  ⟨ns, _, h.alone_done hn, rfl⟩

theorem Lands.of_rest {n : Nat} {s s' : Shared α} {j j' : Job σ α} {ns : List Note}
    (h : Reaches noted rests n (s, []) j ((s', ns), .more j')) (hr : rests (s', ns) j' = true) (hn : n ≤ j.bound s) :
    Lands s j s' none :=
  ⟨ns, _, h.alone_halt hr hn, rfl⟩

/-- A chain among what else the threads share, and the notes so far. -/
abbrev scene (flags : Array Bool) (now : Nat) (ns : List Note) (c : Chain α) : Shared α × List Note :=
  (⟨c, flags, now⟩, ns)

section
variable (flags : Array Bool) (now : Nat) (ns : List Note) {c c' : Chain α} {n : Nat}

/-! ## Pushes -/

/-- After a push the job goes on with the next, or ends. -/
def pushNext (rest : List α) (reply : Reply σ α) : Progress (Job σ α) (Reply σ α) :=
  match rest with
  | [] => .done reply
  | a :: rest => .more (.push (.readTail a) rest reply)

theorem push_part (h : c.Quiet) (a : α) (rest : List α) (reply : Reply σ α) :
    Reaches noted rests 4 (scene flags now ns c) (.push (.readTail a) rest reply)
      (scene flags now ns (c.pushed a), pushNext rest reply) := by
  refine Reaches.embed noted rests (scene flags now ns) (fun p => .push p rest reply)
    (fun c _ => (scene flags now ns c, pushNext rest reply)) (fun c p => rfl) ?_ (push_reaches h a)
  intro c p
  simp only [noted, step, Shared.onChain]
  rcases Push.step c p with ⟨c', q | u⟩
  · simp [whole]
  · cases rest <;> simp [whole, pushNext]

theorem push_job (h : c.Quiet) (a : α) (rest : List α) (reply : Reply σ α) :
    Reaches noted rests (4 * (rest.length + 1)) (scene flags now ns c) (.push (.readTail a) rest reply)
      (scene flags now ns (c.pushAll (a :: rest)), .done reply) := by
  induction rest generalizing c a with
  | nil => exact push_part flags now ns h a [] reply
  | cons b rest ih =>
    have hfirst := push_part flags now ns h a (b :: rest) reply
    exact (hfirst.trans (ih (quiet_pushed h a) b)).mono (by simp; omega)

theorem push_lands (h : c.Quiet) (a : α) (rest : List α) (reply : Reply σ α) :
    Lands ⟨c, flags, now⟩ (.push (.readTail a) rest reply) ⟨c.pushAll (a :: rest), flags, now⟩ (some reply) := by
  refine .of_done (push_job flags now [] h a rest reply) (Nat.mul_le_mul_right _ ?_)
  omega

/-! ## Walks -/

theorem walk_job {aim : Aim σ α} {w : Walk σ α} {e : Walked σ α} (reply : Walked σ α → Reply σ α)
    (h : Reaches (Walk.step aim) Walk.waits n c w (c', .done e)) :
    Reaches noted rests n (scene flags now ns c) (.walk aim w reply) (scene flags now ns c', .done (reply e)) := by
  refine Reaches.embed noted rests (scene flags now ns) (fun w => .walk aim w reply)
    (fun c e => (scene flags now ns c, .done (reply e))) ?_ ?_ h
  · intro c w
    simp [rests, stuck, waits, idles]
  · intro c w
    simp only [noted, step, Shared.onChain]
    rcases Walk.step aim c w with ⟨c', w' | e⟩ <;> simp [whole]

/-- A walk from the head. -/
theorem walk_lands (h : c.Quiet) (aim : Aim σ α) (s : σ) (reply : Walked σ α → Reply σ α) :
    Lands ⟨c, flags, now⟩ (.walk aim (.start s) reply) ⟨c.scrapAll (Walk.whole aim c s).1, flags, now⟩
      (some (reply (Walk.whole aim c s).2)) := by
  refine .of_done (walk_job flags now [] reply (walk_start_reaches h aim s)) ?_
  simp only [bound, parts]
  omega

/-! ## Copies -/

/-- What so many dequeues in a row give, or steps of an iterator. -/
def asked : Nat → List α → List (Option α)
  | 0, _ => []
  | n + 1, l => l.head? :: asked n l.tail

/-- After a step of an iterator the job goes on with the next, or ends. -/
def nextAfter (left : Nat) (got : List (Option α)) (e : Walked σ α) : Progress (Job σ α) (Reply σ α) :=
  match e, left with
  | ⟨cursor, _, .copied a⟩, 0 => .done (.stepped (.inr (got ++ [a])) cursor)
  | ⟨cursor, state, .copied a⟩, left + 1 => .more (.next (.resume cursor state) left (got ++ [a]))
  | e, _ => .done (copyReply .element e)

theorem next_part (h : c.Quiet) (i : Nat) (s : σ) (left : Nat) (got : List (Option α)) :
    Reaches noted rests (8 * c.nodes.size + 1) (scene flags now ns c) (.next (.resume i s) left got)
      (scene flags now ns c, nextAfter left got ⟨c.nextFrom i, s, .copied (((c.liveFrom i).head?).map (·.2))⟩) := by
  have hle := nextFrom_le c i
  refine (Reaches.embed noted rests (scene flags now ns) (fun w => .next w left got)
    (fun c e => (scene flags now ns c, nextAfter left got e)) ?_ ?_ (copy_reaches h i s)).mono
    (by omega)
  · intro c w
    simp [rests, stuck, waits, idles]
  · intro c w
    simp only [noted, step, Shared.onChain]
    rcases Walk.step .copy c w with ⟨c', w' | ⟨cursor, state, o⟩⟩
    · simp [whole]
    · cases o <;> cases left <;> simp [whole, nextAfter]

theorem next_job (h : c.Quiet) (i : Nat) (s : σ) (left : Nat) (got : List (Option α)) : ∃ cursor,
    Reaches noted rests ((8 * c.nodes.size + 1) * (left + 1)) (scene flags now ns c) (.next (.resume i s) left got)
      (scene flags now ns c, .done (.stepped (.inr (got ++ asked (left + 1) ((c.liveFrom i).map (·.2)))) cursor)) := by
  induction left generalizing i got with
  | zero => exact ⟨_, by simpa [nextAfter, asked] using next_part flags now ns h i s 0 got⟩
  | succ left ih =>
    obtain ⟨cursor, hr⟩ := ih (c.nextFrom i) (got ++ [((c.liveFrom i).head?).map (·.2)])
    rw [liveFrom_nextFrom] at hr
    refine ⟨cursor, ?_⟩
    have hall := (next_part flags now ns h i s (left + 1) got).trans hr
    rw [Nat.add_comm, ← Nat.mul_succ] at hall
    simpa [asked] using hall

theorem next_lands (h : c.Quiet) (i : Nat) (s : σ) (left : Nat) : ∃ cursor,
    Lands ⟨c, flags, now⟩ (.next (.resume i s) left []) ⟨c, flags, now⟩
      (some (.stepped (.inr (asked (left + 1) ((c.liveFrom i).map (·.2)))) cursor)) := by
  obtain ⟨cursor, hr⟩ := next_job flags now [] h i s left []
  refine ⟨cursor, .of_done hr (Nat.mul_le_mul_right _ ?_)⟩
  simp only [parts]
  omega

/-- After a copy the job goes on behind it, or ends. -/
def collectAfter (got : List α) (e : Walked σ α) : Progress (Job σ α) (Reply σ α) :=
  match e with
  | ⟨cursor, state, .copied (some a)⟩ => .more (.collect (.resume cursor state) (got ++ [a]))
  | ⟨_, _, .copied none⟩ => .done (.all got)
  | e => .done (copyReply .element e)

theorem collect_part {w : Walk σ α} {e : Walked σ α} (got : List α)
    (h : Reaches (Walk.step .copy) Walk.waits n c w (c', .done e)) :
    Reaches noted rests n (scene flags now ns c) (.collect w got) (scene flags now ns c', collectAfter got e) := by
  refine Reaches.embed noted rests (scene flags now ns) (fun w => .collect w got)
    (fun c e => (scene flags now ns c, collectAfter got e)) ?_ ?_ h
  · intro c w
    simp [rests, stuck, waits, idles]
  · intro c w
    simp only [noted, step, Shared.onChain]
    rcases Walk.step .copy c w with ⟨c', w' | ⟨cursor, state, o⟩⟩
    · simp [whole]
    · rcases o with (_ | a) | _ | _ | _ <;> simp [whole, collectAfter]

theorem collect_job (h : c.Quiet) (i : Nat) (s : σ) (got : List α) :
    Reaches noted rests (9 * (c.nodes.size - i) + 1) (scene flags now ns c) (.collect (.resume i s) got)
      (scene flags now ns c, .done (.all (got ++ (c.liveFrom i).map (·.2)))) := by
  have hpart := fun got => collect_part flags now ns got (copy_reaches h i s)
  have hle := nextFrom_le c i
  induction hl : c.liveFrom i generalizing i got with
  | nil =>
    have hlast := hpart got
    rw [hl] at hlast
    have hall : Reaches noted rests (8 * (c.nextFrom i - i) + 1) (scene flags now ns c) (.collect (.resume i s) got)
        (scene flags now ns c, .done (.all (got ++ []))) := by simpa [collectAfter] using hlast
    exact hall.mono (by omega)
  | cons x l ih =>
    have hx : i < c.nextFrom i := by
      have hm : (x.1, x.2) ∈ c.liveFrom i := by
        rw [hl]
        exact List.mem_cons_self
      rw [nextFrom, hl]
      exact (mem_liveFrom.mp hm).1
    have hrest := ih (c.nextFrom i) (got ++ [x.2]) (fun got => collect_part flags now ns got (copy_reaches h _ s))
      (nextFrom_le c _) (by rw [liveFrom_nextFrom, hl]; rfl)
    have hfirst := hpart got
    rw [hl] at hfirst
    have hall := (show Reaches noted rests _ _ _ (_, Progress.more _) from hfirst).trans hrest
    rw [List.append_assoc] at hall
    exact hall.mono (by omega)

theorem collect_lands (h : c.Quiet) (s : σ) :
    Lands ⟨c, flags, now⟩ (.collect (.start s) []) ⟨c, flags, now⟩ (some (.all (c.live.map (·.2)))) := by
  have hread : noted (scene flags now [] c) (.collect (.start s) []) =
      (scene flags now [] c, .more (.collect (.resume c.head s) [])) := rfl
  refine .of_done (.next rfl hread (collect_job flags now [] h c.head s [])) ?_
  simp only [bound, parts]
  omega

/-- One step of an iterator. -/
theorem copy_lands (h : c.Quiet) (i : Nat) (s : σ) (reply : Walked σ α → Reply σ α) :
    Lands ⟨c, flags, now⟩ (.walk .copy (.resume i s) reply) ⟨c, flags, now⟩
      (some (reply ⟨c.nextFrom i, s, .copied (((c.liveFrom i).head?).map (·.2))⟩)) := by
  have hle := nextFrom_le c i
  refine .of_done (walk_job flags now [] reply (copy_reaches h i s)) ?_
  simp only [bound, parts]
  omega

/-! ## Questions about every item of a list -/

/-- After one item the job goes on with the next, or ends. -/
def containsAfter (rest : List α) (e : Walked σ α) : Progress (Job σ α) (Reply σ α) :=
  match e, rest with
  | ⟨_, state, .found true⟩, a :: rest => .more (.containsAll a (.start state) rest)
  | ⟨_, _, .found b⟩, _ => .done (.yes b)
  | e, _ => .done (copyReply .element e)

theorem contains_part (h : c.Quiet) (item : α) (s : σ) (rest : List α) : ∃ k,
    Reaches noted rests (8 * c.nodes.size) (scene flags now ns c) (.containsAll item (.start s) rest)
      (scene flags now ns c, containsAfter rest ⟨k, s, .found (c.toList.any (· == item))⟩) := by
  obtain ⟨k, hk⟩ := whole_find h (· == item) s
  have hw := walk_start_reaches h (.find (plain (· == item))) s
  rw [hk] at hw
  refine ⟨k, Reaches.embed noted rests (scene flags now ns) (fun w => .containsAll item w rest)
    (fun c e => (scene flags now ns c, containsAfter rest e)) ?_ ?_ hw⟩
  · intro c w
    simp [rests, stuck, waits, idles]
  · intro c w
    simp only [noted, step, Shared.onChain]
    rcases Walk.step (.find (plain (· == item))) c w with ⟨c', w' | ⟨cursor, state, o⟩⟩
    · simp [whole]
    · rcases o with _ | (_ | _) | _ | _ <;> cases rest <;> simp [whole, containsAfter]

theorem contains_job (h : c.Quiet) (item : α) (s : σ) (rest : List α) :
    Reaches noted rests (8 * c.nodes.size * (rest.length + 1)) (scene flags now ns c)
      (.containsAll item (.start s) rest)
      (scene flags now ns c, .done (.yes ((item :: rest).all fun a => c.toList.any (· == a)))) := by
  induction rest generalizing item with
  | nil =>
    obtain ⟨k, hk⟩ := contains_part flags now ns h item s []
    cases hb : c.toList.any (· == item) <;> simpa [hb, containsAfter] using hk
  | cons a rest ih =>
    obtain ⟨k, hk⟩ := contains_part flags now ns h item s (a :: rest)
    cases hb : c.toList.any (· == item) with
    | false =>
      rw [hb] at hk
      have hno : Reaches noted rests (8 * c.nodes.size) (scene flags now ns c)
          (.containsAll item (.start s) (a :: rest)) (scene flags now ns c, .done (.yes false)) := hk
      simpa [hb] using hno.mono (Nat.le_mul_of_pos_right _ (Nat.succ_pos _))
    | true =>
      rw [hb] at hk
      have hall := (show Reaches noted rests _ _ _ (_, Progress.more _) from hk).trans (ih a)
      rw [Nat.add_comm, ← Nat.mul_succ] at hall
      simpa [hb] using hall

theorem contains_lands (h : c.Quiet) (item : α) (s : σ) (rest : List α) :
    Lands ⟨c, flags, now⟩ (.containsAll item (.start s) rest) ⟨c, flags, now⟩
      (some (.yes ((item :: rest).all fun a => c.toList.any (· == a)))) := by
  refine .of_done (contains_job flags now [] h item s rest) (Nat.mul_le_mul_right _ ?_)
  simp only [parts]
  omega

/-! ## Pops -/

theorem pop_job {a : Option α} (reply : Option α → Reply σ α)
    (h : Reaches Pop.step (Pop.halts false) n c .readHead (c', .done (.ok a))) :
    Reaches noted rests n (scene flags now ns c) (.pop .readHead reply) (scene flags now ns c', .done (reply a)) := by
  refine Reaches.embed noted rests (scene flags now ns) (fun p => .pop p reply)
    (fun c r => (scene flags now ns c, match r with | .ok a => .done (reply a) | .error f => .done (.fault f)))
    ?_ ?_ h
  · intro c p
    simp [rests, stuck, waits, idles, Pop.halts]
  · intro c p
    simp only [noted, step, Shared.onChain]
    rcases Pop.step c p with ⟨c', q | _ | a⟩ <;> simp [whole]

theorem pop_lands (h : c.Quiet) (reply : Option α → Reply σ α) : ∃ c', c.Popped c' ∧
    Lands ⟨c, flags, now⟩ (.pop .readHead reply) ⟨c', flags, now⟩ (some (reply ((c.live.head?).map (·.2)))) := by
  obtain ⟨c', hc, hr⟩ := pop_first h
  refine ⟨c', hc, .of_done (pop_job flags now [] reply hr) ?_⟩
  simp only [bound, parts]
  omega

/-- After a dequeue the job goes on with the next, or ends. -/
def popAfter (left : Nat) (got : List (Option α)) (r : Except Fault (Option α)) : Progress (Job σ α) (Reply σ α) :=
  match r, left with
  | .error f, _ => .done (.fault f)
  | .ok a, 0 => .done (.elements (got ++ [a]))
  | .ok a, left + 1 => .more (.popMany .readHead left (got ++ [a]))

theorem popMany_part (left : Nat) (got : List (Option α)) {r : Except Fault (Option α)}
    (h : Reaches Pop.step (Pop.halts false) n c .readHead (c', .done r)) :
    Reaches noted rests n (scene flags now ns c) (.popMany .readHead left got : Job σ α)
      (scene flags now ns c', popAfter left got r) := by
  refine Reaches.embed noted rests (scene flags now ns) (fun p => .popMany p left got)
    (fun c r => (scene flags now ns c, popAfter left got r)) ?_ ?_ h
  · intro c p
    simp [rests, stuck, waits, idles, Pop.halts]
  · intro c p
    simp only [noted, step, Shared.onChain]
    rcases Pop.step c p with ⟨c', q | _ | a⟩ <;> cases left <;> simp [whole, popAfter]

theorem popMany_job (h : c.Quiet) (left : Nat) (got : List (Option α)) : ∃ c' : Chain α, c'.Quiet ∧ c.Later c' ∧
    c'.live = c.live.drop (left + 1) ∧
    Reaches noted rests (8 * c.nodes.size * (left + 1)) (scene flags now ns c) (.popMany .readHead left got : Job σ α)
      (scene flags now ns c', .done (.elements (got ++ asked (left + 1) (c.live.map (·.2))))) := by
  induction left generalizing c got with
  | zero =>
    obtain ⟨c', hc, hr⟩ := pop_first h
    have hpart := popMany_part (σ := σ) flags now ns 0 got hr
    exact ⟨c', hc.quiet, hc.later, by simpa using hc.live, by simpa [asked, popAfter] using hpart⟩
  | succ left ih =>
    obtain ⟨d, hd, hr⟩ := pop_first h
    obtain ⟨c', hq, hlater, hlive, hrest⟩ := ih hd.quiet (got ++ [(c.live.head?).map (·.2)])
    rw [hd.size] at hrest
    have hall := (popMany_part (σ := σ) flags now ns (left + 1) got hr).trans hrest
    rw [Nat.add_comm, ← Nat.mul_succ] at hall
    refine ⟨c', hq, hd.later.trans hlater, by rw [hlive, hd.live, List.drop_tail], ?_⟩
    simpa [asked, hd.live] using hall

theorem popMany_lands (h : c.Quiet) (left : Nat) : ∃ c' : Chain α, c'.Quiet ∧ c.Later c' ∧
    c'.live = c.live.drop (left + 1) ∧
    Lands ⟨c, flags, now⟩ (.popMany .readHead left [] : Job σ α) ⟨c', flags, now⟩
      (some (.elements (asked (left + 1) (c.live.map (·.2))))) := by
  obtain ⟨c', hq, hlater, hlive, hr⟩ := popMany_job (σ := σ) flags now [] h left []
  refine ⟨c', hq, hlater, hlive, .of_done hr (Nat.mul_le_mul_right _ ?_)⟩
  simp only [parts]
  omega

/-! ## Waiting for an element -/

/-- After the first dequeue of a wait. -/
def takeAfter (flags : Array Bool) (now flag : Nat) (c : Chain α) (r : Except Fault (Option α)) :
    (Shared α × List Note) × Progress (Job σ α) (Reply σ α) :=
  match r with
  | .error f => (scene flags now [] c, .done (.fault f))
  | .ok (some a) => (scene flags now [.sample .queueEmptyPolls 0] c, .done (.result (.ok a)))
  | .ok none => (scene flags now [] c, .more (.take (.look 0) .readHead flag))

theorem take_part (flag : Nat) {e : Chain α × Progress Pop (Except Fault (Option α))}
    (h : Reaches Pop.step (Pop.halts (!(flags[flag]?.getD false))) n c .readHead e) :
    Reaches noted rests n (scene flags now [] c) (.take .start .readHead flag : Job σ α)
      (whole (scene flags now []) (fun p => .take .start p flag) (takeAfter flags now flag) e) := by
  refine Reaches.embed noted rests (scene flags now []) (fun p => .take .start p flag) (takeAfter flags now flag)
    ?_ ?_ h
  · intro c p
    simp [rests, stuck, waits, idles, Pop.halts, Take.start, Shared.raised]
  · intro c p
    simp only [noted, step, Shared.onChain, Take.start]
    rcases Pop.step c p with ⟨c', q | _ | _ | a⟩ <;> simp [whole, takeAfter, Take.step, Progress.map]

/-- With no element there, a wait whose flag is raised lowers it and is interrupted. -/
theorem take_interrupted (flag : Nat) (hf : flags[flag]?.getD false = true) :
    Reaches noted rests 2 (scene flags now [] c) (.take (.look 0) .readHead flag : Job σ α)
      (scene (flags.setIfInBounds flag false) now [.event .queueInterrupted, .line (.takeInterrupted 0)] c,
        .done (.result (.error .interrupted))) := by
  have hlook : noted (scene flags now [] c) (.take (.look 0) .readHead flag : Job σ α) =
      (scene flags now [] c, .more (.take (.lower 0) .readHead flag)) := by
    simp [noted, step, Take.step, Shared.view, Shared.raised, hf]
  have hlower : noted (scene flags now [] c) (.take (.lower 0) .readHead flag : Job σ α) =
      (scene (flags.setIfInBounds flag false) now [.event .queueInterrupted, .line (.takeInterrupted 0)] c,
        .done (.result (.error .interrupted))) := by
    simp [noted, step, Take.step, Shared.view, Shared.raised, Shared.setFlag, hf]
  exact .next rfl hlook (.last rfl hlower)

theorem take_lands (h : c.Quiet) (flag : Nat) : ∃ c' flags' r, c.Popped c' ∧
    Lands ⟨c, flags, now⟩ (.take .start .readHead flag : Job σ α) ⟨c', flags', now⟩ r ∧
      ∀ x l, c.live = x :: l → r = some (.result (.ok x.2)) := by
  have hbound : 8 * c.nodes.size + 2 ≤ bound ⟨c, flags, now⟩ (.take .start .readHead flag : Job σ α) := by
    simp only [bound, parts]
    omega
  cases hl : c.live with
  | cons x l =>
    obtain ⟨c', hc, hr⟩ := pop_some _ h hl
    refine ⟨c', flags, _, hc, .of_done (take_part flags now flag hr) (by omega), ?_⟩
    rintro _ _ ⟨⟩
    rfl
  | nil =>
    cases hf : flags[flag]?.getD false with
    | true =>
      obtain ⟨c', hc, hr⟩ := pop_none h hl
      have hpart := take_part (σ := σ) flags now flag (by rw [hf]; exact hr)
      exact ⟨c', _, _, hc, .of_done (hpart.trans (take_interrupted flags now flag hf)) hbound, fun _ _ he => nomatch he⟩
    | false =>
      obtain ⟨c', hc, hi, hr⟩ := pop_idle h hl
      have hpart := take_part (σ := σ) flags now flag (by rw [hf]; exact hr)
      refine ⟨c', flags, _, hc, .of_rest hpart ?_ (by omega), fun _ _ he => nomatch he⟩
      simpa [rests, stuck, waits, idles, Take.start, Pop.halts, Shared.raised, hf] using hi

/-- After the first dequeue of a timed wait. -/
def timedAfter (flags : Array Bool) (now flag : Nat) (deadline : Option Nat) (c : Chain α)
    (r : Except Fault (Option α)) : (Shared α × List Note) × Progress (Job σ α) (Reply σ α) :=
  match r with
  | .error f => (scene flags now [] c, .done (.fault f))
  | .ok (some a) => (scene flags now [.sample .queueEmptyPolls 0] c, .done (.timed (.ok (some a))))
  | .ok none => (scene flags now [] c, .more (.pollTimeout (.look 0) .readHead flag deadline))

theorem timed_part (flag : Nat) (deadline : Option Nat) {e : Chain α × Progress Pop (Except Fault (Option α))}
    (h : Reaches Pop.step (Pop.halts (!(flags[flag]?.getD false) && !TimedPoll.isLate deadline now)) n c .readHead e) :
    Reaches noted rests n (scene flags now [] c) (.pollTimeout .start .readHead flag deadline : Job σ α)
      (whole (scene flags now []) (fun p => .pollTimeout .start p flag deadline)
        (timedAfter flags now flag deadline) e) := by
  refine Reaches.embed noted rests (scene flags now []) (fun p => .pollTimeout .start p flag deadline)
    (timedAfter flags now flag deadline) ?_ ?_ h
  · intro c p
    simp [rests, stuck, waits, idles, Pop.halts, TimedPoll.start, Shared.raised, Bool.and_assoc]
  · intro c p
    simp only [noted, step, Shared.onChain, TimedPoll.start]
    rcases Pop.step c p with ⟨c', q | _ | _ | a⟩ <;> simp [whole, timedAfter, TimedPoll.step, Progress.map]

/-- With no element there, a timed wait whose flag is raised is interrupted, and else one that is
    late gives up. -/
theorem timed_ends (flag : Nat) (deadline : Option Nat)
    (hf : flags[flag]?.getD false = true ∨ TimedPoll.isLate deadline now = true) : ∃ flags' ns' r,
    Reaches noted rests 2 (scene flags now [] c) (.pollTimeout (.look 0) .readHead flag deadline : Job σ α)
      (scene flags' now ns' c, .done (.timed r)) := by
  cases hraised : flags[flag]?.getD false with
  | true =>
    have hlook : noted (scene flags now [] c) (.pollTimeout (.look 0) .readHead flag deadline : Job σ α) =
        (scene flags now [] c, .more (.pollTimeout (.lower 0) .readHead flag deadline)) := by
      simp [noted, step, TimedPoll.step, Shared.view, Shared.raised, hraised]
    have hlower : noted (scene flags now [] c) (.pollTimeout (.lower 0) .readHead flag deadline : Job σ α) =
        (scene (flags.setIfInBounds flag false) now [.event .queueInterrupted, .line (.pollInterrupted 0)] c,
          .done (.timed (.error .interrupted))) := by
      simp [noted, step, TimedPoll.step, Shared.view, Shared.raised, Shared.setFlag, hraised]
    exact ⟨_, _, _, .next rfl hlook (.last rfl hlower)⟩
  | false =>
    have hlate := hf.resolve_left (by simp [hraised])
    have hlook : noted (scene flags now [] c) (.pollTimeout (.look 0) .readHead flag deadline : Job σ α) =
        (scene flags now [] c, .more (.pollTimeout (.clock 0) .readHead flag deadline)) := by
      simp [noted, step, TimedPoll.step, Shared.view, Shared.raised, hraised]
    have hclock : noted (scene flags now [] c) (.pollTimeout (.clock 0) .readHead flag deadline : Job σ α) =
        (scene flags now [.sample .queueEmptyPolls 0, .event .queueTimeout] c, .done (.timed (.ok none))) := by
      simp [noted, step, TimedPoll.step, Shared.view, hlate]
    exact ⟨_, _, _, .next rfl hlook (.last rfl hclock)⟩

theorem timed_lands (h : c.Quiet) (flag : Nat) (deadline : Option Nat) : ∃ c' flags' r, c.Popped c' ∧
    Lands ⟨c, flags, now⟩ (.pollTimeout .start .readHead flag deadline : Job σ α) ⟨c', flags', now⟩ r ∧
      ∀ x l, c.live = x :: l → r = some (.timed (.ok (some x.2))) := by
  have hbound : 8 * c.nodes.size + 2 ≤
      bound ⟨c, flags, now⟩ (.pollTimeout .start .readHead flag deadline : Job σ α) := by
    simp only [bound, parts]
    omega
  cases hl : c.live with
  | cons x l =>
    obtain ⟨c', hc, hr⟩ := pop_some _ h hl
    refine ⟨c', flags, _, hc, .of_done (timed_part flags now flag deadline hr) (by omega), ?_⟩
    rintro _ _ ⟨⟩
    rfl
  | nil =>
    cases hf : !(flags[flag]?.getD false) && !TimedPoll.isLate deadline now with
    | false =>
      obtain ⟨c', hc, hr⟩ := pop_none h hl
      have hpart := timed_part (σ := σ) flags now flag deadline (by rw [hf]; exact hr)
      have hends : flags[flag]?.getD false = true ∨ TimedPoll.isLate deadline now = true := by
        cases hx : flags[flag]?.getD false <;> simp_all
      obtain ⟨flags', ns', r, hi⟩ := timed_ends (σ := σ) flags now (c := c') flag deadline hends
      exact ⟨c', flags', _, hc, .of_done (hpart.trans hi) hbound, fun _ _ he => nomatch he⟩
    | true =>
      obtain ⟨c', hc, hi, hr⟩ := pop_idle h hl
      have hpart := timed_part (σ := σ) flags now flag deadline (by rw [hf]; exact hr)
      refine ⟨c', flags, _, hc, .of_rest hpart ?_ (by omega), fun _ _ he => nomatch he⟩
      have hb : rests (scene flags now [] c') (.pollTimeout .start .readHead flag deadline : Job σ α) =
          Pop.halts (!(flags[flag]?.getD false) && !TimedPoll.isLate deadline now) c' .readHead := by
        simp [rests, stuck, waits, idles, TimedPoll.start, Pop.halts, Shared.raised, Bool.and_assoc]
      rw [hb, hf]
      exact hi

end

end Job

/-! ## Calls -/

namespace Shared

variable {s s' : Shared α} {init : σ} {call : Call σ α}

theorem perform_of_lands {j : Job σ α} {r : Option (Reply σ α)} (hj : (Job.start init s call).1 = .more j)
    (h : j.Lands s s' r) : s.perform init call = (s', r) := by
  obtain ⟨ns, p, hp, rfl⟩ := h
  simp only [perform, hj, hp]

theorem perform_of_done {r : Reply σ α} (hr : (Job.start init s call).1 = .done r) :
    s.perform init call = (s, some r) := by
  simp only [perform, hr]

/-- A job that leaves a quiet chain quiet, and a later one. -/
def Settles (s : Shared α) (j : Job σ α) : Prop :=
  ∃ s' r, j.Lands s s' r ∧ s'.chain.Quiet ∧ s.chain.Later s'.chain

theorem settles_push (h : s.chain.Quiet) (a : α) (rest : List α) (reply : Reply σ α) :
    s.Settles (.push (.readTail a) rest reply) :=
  ⟨_, _, Job.push_lands s.flags s.now h a rest reply, quiet_pushAll h _, later_pushAll _ _⟩

theorem settles_pop (h : s.chain.Quiet) (reply : Option α → Reply σ α) : s.Settles (.pop .readHead reply) := by
  obtain ⟨c', hc, hl⟩ := Job.pop_lands s.flags s.now h reply
  exact ⟨_, _, hl, hc.quiet, hc.later⟩

theorem settles_walk (h : s.chain.Quiet) (aim : Aim σ α) (x : σ) (reply : Walked σ α → Reply σ α) :
    s.Settles (.walk aim (.start x) reply) :=
  ⟨_, _, Job.walk_lands s.flags s.now h aim x reply, quiet_scrapAll h _, later_scrapAll _ _⟩

/-- Whatever the call, it leaves a quiet chain quiet, and a later one. -/
theorem perform_quiet (init : σ) (h : s.chain.Quiet) (call : Call σ α) :
    (s.perform init call).1.chain.Quiet ∧ s.chain.Later (s.perform init call).1.chain := by
  have job : ∀ j, (Job.start init s call).1 = .more j → s.Settles j →
      (s.perform init call).1.chain.Quiet ∧ s.chain.Later (s.perform init call).1.chain := by
    rintro j hj ⟨s', r, hl, hq, hlater⟩
    rw [perform_of_lands hj hl]
    exact ⟨hq, hlater⟩
  have done : ∀ r, (Job.start init s call).1 = .done r →
      (s.perform init call).1.chain.Quiet ∧ s.chain.Later (s.perform init call).1.chain := by
    intro r hr
    rw [perform_of_done hr]
    exact ⟨h, .refl _⟩
  cases call with
  | add a => exact job _ rfl (settles_push h a [] _)
  | offer a => exact job _ rfl (settles_push h a [] _)
  | offerTimeout a timeout => exact job _ rfl (settles_push h a [] _)
  | put a => exact job _ rfl (settles_push h a [] _)
  | addAll as =>
    cases as with
    | nil => exact done _ rfl
    | cons a as => exact job _ rfl (settles_push h a as _)
  | poll => exact job _ rfl (settles_pop h _)
  | removeFirst => exact job _ rfl (settles_pop h _)
  | pollMany n =>
    cases n with
    | zero => exact done _ rfl
    | succ n =>
      obtain ⟨c', hq, hlater, -, hl⟩ := Job.popMany_lands (σ := σ) s.flags s.now h n
      exact job _ rfl ⟨_, _, hl, hq, hlater⟩
  | take flag =>
    obtain ⟨c', flags', r, hc, hl, -⟩ := Job.take_lands (σ := σ) s.flags s.now h flag
    exact job _ rfl ⟨_, _, hl, hc.quiet, hc.later⟩
  | pollTimeout timeout flag =>
    obtain ⟨c', flags', r, hc, hl, -⟩ := Job.timed_lands (σ := σ) s.flags s.now h flag
      (TimedPoll.deadline? Job.latest s.now timeout.total)
    exact job _ rfl ⟨_, _, hl, hc.quiet, hc.later⟩
  | next cursor n =>
    cases n with
    | none => exact job _ rfl ⟨_, _, Job.copy_lands s.flags s.now h cursor init _, h, .refl _⟩
    | some n =>
      cases n with
      | zero => exact done _ rfl
      | succ n =>
        obtain ⟨_, hl⟩ := Job.next_lands s.flags s.now h cursor init n
        exact job _ rfl ⟨_, _, hl, h, .refl _⟩
  | toList => exact job _ rfl ⟨_, _, Job.collect_lands s.flags s.now h init, h, .refl _⟩
  | containsAll as =>
    cases as with
    | nil => exact done _ rfl
    | cons a as => exact job _ rfl ⟨_, _, Job.contains_lands s.flags s.now h a init as, h, .refl _⟩
  | peek => exact job _ rfl (settles_walk h _ _ _)
  | element => exact job _ rfl (settles_walk h _ _ _)
  | contains a => exact job _ rfl (settles_walk h _ _ _)
  | removeItem a => exact job _ rfl (settles_walk h _ _ _)
  | removeAll as => exact job _ rfl (settles_walk h _ _ _)
  | retainAll as => exact job _ rfl (settles_walk h _ _ _)
  | retain keep => exact job _ rfl (settles_walk h _ _ _)
  | clear => exact job _ rfl (settles_walk h _ _ _)
  | any ask => exact job _ rfl (settles_walk h _ _ _)
  | removeWhere ask limit => exact job _ rfl (settles_walk h _ _ _)
  | len => exact done _ rfl
  | isEmpty => exact done _ rfl
  | drainTo sink => exact done _ rfl
  | drainToMax sink max => exact done _ rfl

/-- Whatever the call, it gets to a reply, unless it waits for an element and there is none. -/
theorem perform_replies (init : σ) (h : s.chain.Quiet) (call : Call σ α)
    (hw : call.awaits = true → s.chain.live ≠ []) : ∃ r, (s.perform init call).2 = some r := by
  have job : ∀ j s' r, (Job.start init s call).1 = .more j → j.Lands s s' (some r) →
      ∃ r, (s.perform init call).2 = some r := by
    intro j s' r hj hl
    rw [perform_of_lands hj hl]
    exact ⟨r, rfl⟩
  have done : ∀ r, (Job.start init s call).1 = .done r → ∃ r, (s.perform init call).2 = some r := by
    intro r hr
    rw [perform_of_done hr]
    exact ⟨r, rfl⟩
  cases call with
  | add a | offer a | offerTimeout a timeout | put a => exact job _ _ _ rfl (Job.push_lands s.flags s.now h a [] _)
  | addAll as =>
    cases as with
    | nil => exact done _ rfl
    | cons a as => exact job _ _ _ rfl (Job.push_lands s.flags s.now h a as _)
  | poll | removeFirst =>
    obtain ⟨c', -, hl⟩ := Job.pop_lands s.flags s.now h _
    exact job _ _ _ rfl hl
  | pollMany n =>
    cases n with
    | zero => exact done _ rfl
    | succ n =>
      obtain ⟨c', -, -, -, hl⟩ := Job.popMany_lands (σ := σ) s.flags s.now h n
      exact job _ _ _ rfl hl
  | take flag =>
    obtain ⟨x, l, hx⟩ := List.exists_cons_of_ne_nil (hw rfl)
    obtain ⟨c', flags', r, -, hl, hr⟩ := Job.take_lands (σ := σ) s.flags s.now h flag
    exact job _ _ _ rfl (hr x l hx ▸ hl)
  | pollTimeout timeout flag =>
    obtain ⟨x, l, hx⟩ := List.exists_cons_of_ne_nil (hw rfl)
    obtain ⟨c', flags', r, -, hl, hr⟩ := Job.timed_lands (σ := σ) s.flags s.now h flag
      (TimedPoll.deadline? Job.latest s.now timeout.total)
    exact job _ _ _ rfl (hr x l hx ▸ hl)
  | next cursor n =>
    cases n with
    | none => exact job _ _ _ rfl (Job.copy_lands s.flags s.now h cursor init _)
    | some n =>
      cases n with
      | zero => exact done _ rfl
      | succ n =>
        obtain ⟨_, hl⟩ := Job.next_lands s.flags s.now h cursor init n
        exact job _ _ _ rfl hl
  | toList => exact job _ _ _ rfl (Job.collect_lands s.flags s.now h init)
  | containsAll as =>
    cases as with
    | nil => exact done _ rfl
    | cons a as => exact job _ _ _ rfl (Job.contains_lands s.flags s.now h a init as)
  | peek | element | contains a | any ask => exact job _ _ _ rfl (Job.walk_lands s.flags s.now h _ init _)
  | removeItem a | removeAll as | retainAll as | retain keep | clear | removeWhere ask limit =>
    exact job _ _ _ rfl (Job.walk_lands s.flags s.now h _ init _)
  | len | isEmpty | drainTo sink | drainToMax sink max => exact done _ rfl

end Shared

end BusyWait
