import BusyWait.Proofs.Lock.Passage
import BusyWait.Proofs.Lock.Runs
import BusyWait.Proofs.Stats.Ledger

/-
  BusyWait.Proofs.Lock.Mirror — two locks under the same run.

  Two locks are mirrors of each other if each whole operation does the same to both: it
  ends with the same verdict, or leaves a writer waiting in both, and the locks look the
  same afterwards (`Mirror`). What they are built of, how they spread readers and what
  they log may differ. A mirror may hold for some operations only; it says which it allows.

  - `run_twin`: under the same operations both give the same reports and let the same
    writers wait, and count the same.
  - `begun_twin`: the program refuses to begin the same operations of both.
-/

namespace BusyWait

/-! ## Whole operations -/

/-- What two locks and their writers have in common. -/
structure Likeness (L T L' T' : Type) where
  Like : L → L' → Prop
  /-- What is left to do for two writers that wait. -/
  Paused : T → T' → Prop
  /-- Whether they record the same samples. -/
  Counts : Prop
  /-- The faults that come up. -/
  Fails : Fault → Prop

namespace Likeness

variable {L T L' T' : Type} (K : Likeness L T L' T')

/-- They have the same verdict, or both wait. -/
inductive Ends : Progress T Verdict → Progress T' Verdict → Prop
  | more {t : T} {t' : T'} (h : K.Paused t t') : Ends (.more t) (.more t')
  | done (v : Verdict) (h : ∀ f, v = .failed f → K.Fails f) : Ends (.done v) (.done v)

/-- They come to the same. -/
structure Same (e : (L × List Note) × Progress T Verdict) (e' : (L' × List Note) × Progress T' Verdict) : Prop where
  like : K.Like e.1.1 e'.1.1
  samples : K.Counts → Note.samples e'.1.2 = Note.samples e.1.2
  ends : K.Ends e.2 e'.2

end Likeness

structure Mirror (L T L' T' : Type) [Lock L T] [Lock L' T'] extends Likeness L T L' T' where
  /-- So many attempts to enter are allowed. -/
  Room : L → Nat → Prop
  /-- So many releases are. -/
  Held : L → Nat → Prop
  /-- An unblock is, and whether nobody waits. -/
  Free : L → Bool → Prop
  /-- Writers that wait can go on. -/
  Raised : L → Prop
  readers : ∀ {l l'}, Like l l' → ∃ n, Lock.readers l = .ok n ∧ Lock.readers l' = .ok n
  isBlocked : ∀ {l l'}, Like l l' → Lock.isBlocked l' = Lock.isBlocked l
  readersOn : ∀ {l l'}, Like l l' → ∀ i i', Lock.readersOn l' i' = Lock.readersOn l i
  crowded : ∀ {l l'}, Like l l' → ∀ n, Lock.crowded l' n = Lock.crowded l n
  enter : ∀ {l l'}, Like l l' → ∀ {n}, Room l (n + 1) → ∀ i i',
    toLikeness.Same (Lock.run l (Lock.enter l i)) (Lock.run l' (Lock.enter l' i')) ∧
      Room (Lock.run l (Lock.enter l i)).1.1 n ∧ (Raised l → Raised (Lock.run l (Lock.enter l i)).1.1)
  leave : ∀ {l l'}, Like l l' → ∀ {n}, Held l (n + 1) → ∀ i i',
    toLikeness.Same (Lock.run l (Lock.leave l i)) (Lock.run l' (Lock.leave l' i')) ∧
      Held (Lock.run l (Lock.leave l i)).1.1 n ∧ (Raised l → Raised (Lock.run l (Lock.leave l i)).1.1)
  block : ∀ {l l'}, Like l l' → toLikeness.Same (Lock.run l (Lock.block l)) (Lock.run l' (Lock.block l')) ∧
    Raised (Lock.run l (Lock.block l)).1.1
  wait : ∀ {l l'}, Like l l' → Raised l → ∀ {t t'}, Paused t t' →
    toLikeness.Same (Lock.run l t) (Lock.run l' t') ∧ Raised (Lock.run l t).1.1
  unblock : ∀ {l l'}, Like l l' → ∀ {b}, Free l b →
    toLikeness.Same (Lock.run l (Lock.unblock l)) (Lock.run l' (Lock.unblock l')) ∧
      (b = false → Raised (Lock.run l (Lock.unblock l)).1.1)

end BusyWait

namespace BusyWait.LockStep

/-! ## The threads of both -/

/-- The same threads are alive, and have counted the same; they may have drawn other indices. -/
structure Team.Like (Counts : Prop) (m m' : Team) : Prop where
  alive : m'.alive = m.alive
  global : Counts → m'.book.global = m.book.global
  own : Counts → ∀ t, m'.book.ownOf t = m.book.ownOf t

namespace Team.Like

variable {Counts : Prop} {m m' : Team}

theorem note (h : Team.Like Counts m m') (t : Thread) {ns ns' : List Note}
    (hns : Counts → Note.samples ns' = Note.samples ns) : Team.Like Counts (m.note t ns) (m'.note t ns') := by
  refine ⟨h.alive, ?_, ?_⟩
  · intro hc
    show (m'.book.notes t ns').global = (m.book.notes t ns).global
    rw [Book.global_notes, Book.global_notes, h.global hc]
  · intro hc u
    show (m'.book.notes t ns').ownOf u = (m.book.notes t ns).ownOf u
    rw [Book.ownOf_notes, Book.ownOf_notes, Stats.foldl_note, Stats.foldl_note, hns hc, h.own hc, h.own hc]

theorem join (h : Team.Like Counts m m') (t : Thread) : Team.Like Counts (m.join t) (m'.join t) :=
  ⟨congrArg (·.insert t) h.alive, h.global, h.own⟩

theorem flush (h : Team.Like Counts m m') (t : Thread) {us us' : List Thread} (hus : us' = us) (r r' : Registry) :
    Team.Like Counts ⟨us, r, m.book.flush t⟩ ⟨us', r', m'.book.flush t⟩ := by
  refine ⟨hus, ?_, ?_⟩
  · intro hc
    show m'.book.global.merge (m'.book.ownOf t) = m.book.global.merge (m.book.ownOf t)
    rw [h.global hc, h.own hc]
  · intro hc u
    show (m'.book.flush t).ownOf u = (m.book.flush t).ownOf u
    rw [Book.ownOf_flush, Book.ownOf_flush, h.own hc]

theorem exit (h : Team.Like Counts m m') (t : Thread) :
    Team.Like Counts (m.exit t).1 (m'.exit t).1 ∧ (m'.exit t).2 = (m.exit t).2 := by
  unfold Team.exit
  rw [h.alive]
  by_cases ht : m.alive.contains t = true
  · rw [if_pos ht, if_pos ht]
    exact ⟨h.flush t rfl _ _, rfl⟩
  · rw [if_neg ht, if_neg ht]
    exact ⟨h, rfl⟩

end Team.Like

namespace Locks

variable {L T L' T' : Type} [Lock L T] [Lock L' T']

/-! ## Twins -/

section
variable (M : Mirror L T L' T')

/-- Two writers of the same thread that wait for the same. -/
def Stands (w : Writer T) (w' : Writer T') : Prop := w'.who = w.who ∧ M.Paused w.task w'.task

/-- The same run of both locks; the writers `rest` are still to go on. -/
structure Twin (s : State L T) (s' : State L' T') (rest : List (Writer T)) (rest' : List (Writer T')) : Prop where
  lock : M.Like s.lock s'.lock
  team : Team.Like M.Counts s.team s'.team
  guards : s'.guards = s.guards
  standing : List.Forall₂ (Stands M) s.waiting s'.waiting
  going : List.Forall₂ (Stands M) rest rest'
  raised : s.waiting ++ rest ≠ [] → M.Raised s.lock

/-- The same reply, and no fault that does not come up. -/
def Agrees (r r' : Reply) : Prop := r' = r ∧ ∀ f, r = .fault f → M.Fails f

variable {M} {s : State L T} {s' : State L' T'} {rest : List (Writer T)} {rest' : List (Writer T')} {t : Thread}

theorem agrees_of_ne {r : Reply} (h : ∀ f, r ≠ .fault f) : Agrees M r r := ⟨rfl, fun f hf => absurd hf (h f)⟩

theorem agrees_done : Agrees M .done .done := agrees_of_ne nofun

theorem agrees_flag (b : Bool) : Agrees M (.flag b) (.flag b) := agrees_of_ne nofun

theorem agrees_count (n : Nat) : Agrees M (.count n) (.count n) := agrees_of_ne nofun

theorem agrees_tally (r : TallyReply) : Agrees M (.tally r) (.tally r) := agrees_of_ne nofun

theorem agrees_reply {p : Progress T Verdict} {p' : Progress T' Verdict} (h : M.Ends p p') (r : Reply)
    (hr : ∀ f, r ≠ .fault f) : Agrees M (State.reply r p) (State.reply r p') := by
  cases h with
  | more _ => exact agrees_of_ne nofun
  | done v h =>
    cases v with
    | entered => exact agrees_of_ne nofun
    | refused => exact agrees_of_ne nofun
    | finished => exact agrees_of_ne hr
    | failed f => exact ⟨rfl, fun g hg => h g (by cases hg; rfl)⟩

/-- One operation of a thread on both. -/
theorem Twin.run (h : Twin M s s' rest rest') {task : T} {task' : T'}
    (he : M.Same (Lock.run s.lock task) (Lock.run s'.lock task'))
    (hr : M.Raised s.lock → M.Raised (Lock.run s.lock task).1.1) :
    Twin M (s.run t task).1 (s'.run t task').1 rest rest' ∧ M.Ends (s.run t task).2.1 (s'.run t task').2.1 :=
  ⟨⟨he.like, h.team.note t he.samples, h.guards, h.standing, h.going, fun hne => hr (h.raised hne)⟩, he.ends⟩

/-- Both keep other guards, the same ones. -/
theorem Twin.guarded (h : Twin M s s' rest rest') {gs gs' : List Guard} (hg : gs' = gs) :
    Twin M { s with guards := gs } { s' with guards := gs' } rest rest' :=
  ⟨h.lock, h.team, hg, h.standing, h.going, h.raised⟩

theorem lock_run (s : State L T) (t : Thread) (task : T) : (s.run t task).1.lock = (Lock.run s.lock task).1.1 := rfl

/-! ## Readers -/

theorem enterOnce_twin (h : Twin M s s' [] []) {n : Nat} (hr : M.Room s.lock (n + 1)) (i i' : Index) :
    Twin M (s.enterOnce t i).1 (s'.enterOnce t i').1 [] [] ∧ M.Ends (s.enterOnce t i).2 (s'.enterOnce t i').2 ∧
      M.Room (s.enterOnce t i).1.lock n := by
  obtain ⟨hsame, hroom, hraised⟩ := M.enter h.lock hr i i'
  obtain ⟨htwin, hends⟩ := h.run (t := t) hsame hraised
  exact ⟨htwin, hends, hroom⟩

theorem enterMany_twin (n : Nat) (h : Twin M s s' [] []) (hr : M.Room s.lock n) (i i' : Index) (got : Nat) :
    Twin M (s.enterMany t i got n).1 (s'.enterMany t i' got n).1 [] [] ∧
      Agrees M (s.enterMany t i got n).2 (s'.enterMany t i' got n).2 := by
  induction n generalizing s s' got with
  | zero => exact ⟨h, agrees_of_ne nofun⟩
  | succ n ih =>
    obtain ⟨htwin, hends, hroom⟩ := enterOnce_twin (t := t) h hr i i'
    unfold State.enterMany
    generalize s.enterOnce t i = e at htwin hends hroom
    generalize s'.enterOnce t i' = e' at htwin hends
    obtain ⟨s₁, p⟩ := e
    obtain ⟨s₁', p'⟩ := e'
    cases hends with
    | more _ => exact ih htwin hroom got
    | done v hv =>
      cases v with
      | entered => exact ih htwin hroom (got + 1)
      | refused => exact ih htwin hroom got
      | finished => exact ih htwin hroom got
      | failed f => exact ⟨htwin, rfl, fun g hg => hv g (by cases hg; rfl)⟩

theorem enter_twin (h : Twin M s s' [] []) (n : Option Nat) (hr : M.Room s.lock (n.getD 1)) (i i' : Index) :
    Twin M (s.enter t i n).1 (s'.enter t i' n).1 [] [] ∧ Agrees M (s.enter t i n).2 (s'.enter t i' n).2 := by
  cases n with
  | none =>
    obtain ⟨htwin, hends, -⟩ := enterOnce_twin (t := t) h (n := 0) hr i i'
    exact ⟨htwin, agrees_reply hends .done nofun⟩
  | some n => exact enterMany_twin n h hr i i' 0

theorem leaveMany_twin (n : Nat) (h : Twin M s s' [] []) (hr : M.Held s.lock n) (i i' : Index) :
    Twin M (s.leaveMany t i n).1 (s'.leaveMany t i' n).1 [] [] ∧
      Agrees M (s.leaveMany t i n).2 (s'.leaveMany t i' n).2 := by
  induction n generalizing s s' with
  | zero => exact ⟨h, agrees_done⟩
  | succ n ih =>
    obtain ⟨hsame, hheld, hraised⟩ := M.leave h.lock hr i i'
    obtain ⟨htwin, hends⟩ := h.run (t := t) hsame hraised
    rw [← lock_run s t] at hheld
    unfold State.leaveMany
    generalize s.run t (Lock.leave s.lock i) = e at htwin hends hheld
    generalize s'.run t (Lock.leave s'.lock i') = e' at htwin hends
    obtain ⟨s₁, p, log⟩ := e
    obtain ⟨s₁', p', log'⟩ := e'
    have hreply := agrees_reply hends .done (by simp)
    cases hends with
    | more _ => exact ⟨htwin, hreply⟩
    | done v _ =>
      cases v with
      | finished => exact ih htwin hheld
      | entered => exact ⟨htwin, hreply⟩
      | refused => exact ⟨htwin, hreply⟩
      | failed f => exact ⟨htwin, hreply⟩

/-! ## Writers -/

theorem unblock_twin (h : Twin M s s' [] []) (hr : M.Free s.lock s.waiting.isEmpty) :
    Twin M (s.unblock t).1 (s'.unblock t).1 [] [] ∧ Agrees M (s.unblock t).2 (s'.unblock t).2 := by
  obtain ⟨hsame, hraised⟩ := M.unblock h.lock hr
  have htwin : Twin M (s.unblock t).1 (s'.unblock t).1 [] [] := by
    refine ⟨hsame.like, h.team.note t hsame.samples, h.guards, h.standing, h.going, ?_⟩
    intro hne
    refine hraised (List.isEmpty_eq_false_iff.mpr ?_)
    rwa [List.append_nil] at hne
  exact ⟨htwin, agrees_reply hsame.ends .done nofun⟩

theorem hold_twin (h : Twin M s s' rest rest') (g : Option String) :
    Twin M (s.hold t g) (s'.hold t g) rest rest' := by
  cases g with
  | none => exact h
  | some g => exact h.guarded (congrArg (· ++ [_]) h.guards)

theorem ne_fault_writerReply (g : Option String) (f : Fault) : State.writerReply g ≠ .fault f := by
  unfold State.writerReply
  split <;> nofun

/-- One more writer has to wait. -/
theorem Twin.wait (h : Twin M s s' rest rest') (hr : M.Raised s.lock) {w : Writer T} {w' : Writer T'}
    (hw : Stands M w w') :
    Twin M { s with waiting := s.waiting ++ [w] } { s' with waiting := s'.waiting ++ [w'] } rest rest' :=
  ⟨h.lock, h.team, h.guards, List.rel_append h.standing (.cons hw .nil), h.going, fun _ => hr⟩

theorem block_twin (h : Twin M s s' [] []) (g : Option String) : Twin M (s.block t g).1 (s'.block t g).1 [] [] ∧
    Agrees M (s.block t g).2.1 (s'.block t g).2.1 := by
  obtain ⟨hsame, hraised⟩ := M.block h.lock
  obtain ⟨htwin, hends⟩ := h.run (t := t) hsame fun _ => hraised
  rw [← lock_run s t] at hraised
  unfold State.block
  generalize s.run t (Lock.block s.lock) = e at htwin hends hraised
  generalize s'.run t (Lock.block s'.lock) = e' at htwin hends
  obtain ⟨s₁, p, log⟩ := e
  obtain ⟨s₁', p', log'⟩ := e'
  have hreply := agrees_reply hends .done nofun
  cases hends with
  | more hp => exact ⟨htwin.wait hraised ⟨rfl, hp⟩, agrees_of_ne nofun⟩
  | done v _ =>
    cases v with
    | finished => exact ⟨hold_twin htwin g, agrees_of_ne (ne_fault_writerReply g)⟩
    | entered => exact ⟨htwin, hreply⟩
    | refused => exact ⟨htwin, hreply⟩
    | failed f => exact ⟨htwin, hreply⟩

variable (M) in
/-- The same writers got through, with the same replies. -/
def Finish (fs fs' : List Finished) : Prop :=
  fs'.map Finished.outcome = fs.map Finished.outcome ∧ ∀ x ∈ fs, ∀ f, x.reply = .fault f → M.Fails f

theorem Finish.append {fs fs' gs gs' : List Finished} (h : Finish M fs fs') (h' : Finish M gs gs') :
    Finish M (fs ++ gs) (fs' ++ gs') := by
  refine ⟨by rw [List.map_append, List.map_append, h.1, h'.1], ?_⟩
  intro x hx
  rcases List.mem_append.mp hx with hx | hx
  · exact h.2 x hx
  · exact h'.2 x hx

theorem finish_nil : Finish M [] [] := ⟨rfl, nofun⟩

theorem finish_one {x x' : Finished} (hthread : x'.thread = x.thread) (hreply : Agrees M x.reply x'.reply) :
    Finish M [x] [x'] := by
  refine ⟨?_, ?_⟩
  · show [(x'.thread, x'.reply)] = [(x.thread, x.reply)]
    rw [hthread, hreply.1]
  · intro y hy
    rw [List.mem_singleton.mp hy]
    exact hreply.2

theorem advance_twin {w : Writer T} {w' : Writer T'} (h : Twin M s s' (w :: rest) (w' :: rest')) :
    Twin M (s.advance w).1 (s'.advance w').1 rest rest' ∧
      Finish M (s.advance w).2.toList (s'.advance w').2.toList := by
  obtain ⟨⟨hwho, hpaused⟩, hrest⟩ := List.forall₂_cons.mp h.going
  obtain ⟨hthread, hguard⟩ := Prod.mk.inj hwho
  have hgo : M.Raised s.lock := h.raised (List.append_ne_nil_of_right_ne_nil _ (List.cons_ne_nil w rest))
  obtain ⟨hsame, hraised⟩ := M.wait h.lock hgo hpaused
  have h₀ : Twin M s s' rest rest' := ⟨h.lock, h.team, h.guards, h.standing, hrest, fun _ => hgo⟩
  obtain ⟨htwin, hends⟩ := h₀.run (t := w.thread) hsame fun _ => hraised
  rw [← lock_run s w.thread] at hraised
  unfold State.advance
  rw [hthread, hguard]
  generalize s.run w.thread w.task = e at htwin hends hraised
  generalize s'.run w.thread w'.task = e' at htwin hends
  obtain ⟨s₁, p, log⟩ := e
  obtain ⟨s₁', p', log'⟩ := e'
  have hreply := agrees_reply hends .done nofun
  cases hends with
  | more hp => exact ⟨htwin.wait hraised ⟨rfl, hp⟩, finish_nil⟩
  | done v _ =>
    cases v with
    | finished => exact ⟨hold_twin htwin w.guard, finish_one rfl (agrees_of_ne (ne_fault_writerReply w.guard))⟩
    | entered => exact ⟨htwin, finish_one rfl hreply⟩
    | refused => exact ⟨htwin, finish_one rfl hreply⟩
    | failed f => exact ⟨htwin, finish_one rfl hreply⟩

theorem advanceEach_twin {ws : List (Writer T)} {ws' : List (Writer T')} {done done' : List Finished}
    (h : Twin M s s' ws ws') (hd : Finish M done done') :
    Twin M (advanceEach s done ws).1 (advanceEach s' done' ws').1 [] [] ∧
      Finish M (advanceEach s done ws).2 (advanceEach s' done' ws').2 := by
  induction ws generalizing s s' ws' done done' with
  | nil =>
    obtain rfl := List.forall₂_nil_left_iff.mp h.going
    exact ⟨h, hd⟩
  | cons w ws ih =>
    obtain ⟨w', ws', -, -, rfl⟩ := List.forall₂_cons_left_iff.mp h.going
    obtain ⟨htwin, hfinish⟩ := advance_twin h
    unfold advanceEach at ih ⊢
    rw [List.foldl_cons, List.foldl_cons]
    exact ih htwin (hd.append hfinish)

theorem settle_twin (n : Nat) (h : Twin M s s' [] []) :
    Twin M (s.settle n).1 (s'.settle n).1 [] [] ∧ Finish M (s.settle n).2 (s'.settle n).2 := by
  induction n generalizing s s' with
  | zero => exact ⟨h, finish_nil⟩
  | succ n ih =>
    have hall : Twin M { s with waiting := [] } { s' with waiting := [] } s.waiting s'.waiting := by
      refine ⟨h.lock, h.team, h.guards, .nil, h.standing, ?_⟩
      intro hne
      exact h.raised (by rwa [List.append_nil])
    obtain ⟨htwin, hfinish⟩ := advanceEach_twin hall finish_nil
    obtain ⟨hlast, hlater⟩ := ih htwin
    exact ⟨hlast, hfinish.append hlater⟩

/-! ## Any operation -/

/-- Operations that mean the same to every lock, and whose reply does not show what it is made of. -/
def Op.isCommon : Op → Bool
  | .enter _ | .leave _ | .block | .unblock | .read _ | .write _ | .drop _ | .formatGuard _ _ | .readers
  | .isBlocked | .exit | .tally .flush => true
  | _ => false

variable (M) in
/-- The operations that the mirror is about. -/
def Allows (s : State L T) (t : Thread) : Op → Prop
  | .enter n => M.Room s.lock (n.getD 1)
  | .read _ => M.Room s.lock 1
  | .leave n => M.Held s.lock n
  | .unblock => M.Free s.lock s.waiting.isEmpty
  | .drop g =>
    match s.guard? t g with
    | some ⟨_, _, .read⟩ => M.Held s.lock 1
    | some ⟨_, _, .write⟩ => M.Free s.lock s.waiting.isEmpty
    | none => True
  | _ => True

theorem Allows.alike {s₁ : State L T} {op : Op} (h : Allows M s t op) (ha : Alike t s s₁) : Allows M s₁ t op := by
  have hguard : ∀ g, s₁.guard? t g = s.guard? t g := by
    intro g
    unfold State.guard?
    rw [ha.guards]
  unfold Allows at h ⊢
  simp only [ha.lock, ha.waiting, hguard]
  exact h

/-- Both have come to a state that looks as it did before. -/
theorem Twin.alike (h : Twin M s s' rest rest') {s₁ : State L T} {s₁' : State L' T'} (ha : Alike t s s₁)
    (ha' : Alike t s' s₁') (halive : s₁'.team.alive = s₁.team.alive) (hbook : s₁.team.book = s.team.book)
    (hbook' : s₁'.team.book = s'.team.book) : Twin M s₁ s₁' rest rest' := by
  refine ⟨?_, ⟨halive, ?_, ?_⟩, ?_, ?_, h.going, ?_⟩
  · rw [ha.lock, ha'.lock]
    exact h.lock
  · rw [hbook, hbook']
    exact h.team.global
  · rw [hbook, hbook']
    exact h.team.own
  · rw [ha.guards, ha'.guards, h.guards]
  · rw [ha.waiting, ha'.waiting]
    exact h.standing
  · rw [ha.waiting, ha.lock]
    exact h.raised

/-- A thread that is alive draws its index; that is not seen. -/
theorem Twin.indexed (h : Twin M s s' rest rest') (ht : t ∈ s.team.alive) :
    Twin M (s.indexFor t).1 (s'.indexFor t).1 rest rest' := by
  refine h.alike (alike_indexFor s t) (alike_indexFor s' t) ?_ (s.book_indexFor t) (s'.book_indexFor t)
  rw [s.alive_indexFor ht, s'.alive_indexFor (h.team.alive ▸ ht), h.team.alive]

theorem Twin.ready (h : Twin M s s' rest rest') (t : Thread) (op : Op) :
    Twin M (s.ready t op) (s'.ready t op) rest rest' := by
  refine h.alike (s.alike_ready t op) (s'.alike_ready t op) ?_ (s.book_ready t op) (s'.book_ready t op)
  by_cases hop : op = .exit
  · rw [hop]
    exact h.team.alive
  · rw [s.alive_ready hop, s'.alive_ready hop, h.team.alive]

theorem guard?_twin (h : Twin M s s' rest rest') (t : Thread) (g : String) : s'.guard? t g = s.guard? t g := by
  unfold State.guard?
  rw [h.guards]

theorem drop_twin (h : Twin M s s' [] []) (ht : t ∈ s.team.alive) (g : Guard) (hr : match g.kind with
    | .read => M.Held s.lock 1
    | .write => M.Free s.lock s.waiting.isEmpty) :
    Twin M (s.dropGuard t g).1 (s'.dropGuard t g).1 [] [] ∧ Agrees M (s.dropGuard t g).2 (s'.dropGuard t g).2 := by
  have hdrop : Twin M { s with guards := s.guards.erase g } { s' with guards := s'.guards.erase g } [] [] :=
    h.guarded (congrArg (·.erase g) h.guards)
  unfold State.dropGuard
  cases hk : g.kind with
  | read =>
    rw [hk] at hr
    refine leaveMany_twin 1 (hdrop.indexed ht) ?_ _ _
    rw [(alike_indexFor _ t).lock]
    exact hr
  | write =>
    rw [hk] at hr
    exact unblock_twin hdrop hr

theorem read_twin (h : Twin M s s' [] []) (ht : t ∈ s.team.alive) (g : String) (hr : M.Room s.lock 1) :
    Twin M (s.perform t (.read g)).1 (s'.perform t (.read g)).1 [] [] ∧
      Agrees M (s.perform t (.read g)).2.1 (s'.perform t (.read g)).2.1 := by
  have hroom : M.Room (s.indexFor t).1.lock 1 := by
    rw [(alike_indexFor s t).lock]
    exact hr
  obtain ⟨htwin, hends, -⟩ := enterOnce_twin (t := t) (h.indexed ht) (n := 0) hroom (s.indexFor t).2 (s'.indexFor t).2
  have hreply := agrees_reply hends .done nofun
  unfold State.perform
  dsimp only
  generalize (s.indexFor t).1.enterOnce t (s.indexFor t).2 = e at htwin hends hreply
  generalize (s'.indexFor t).1.enterOnce t (s'.indexFor t).2 = e' at htwin hends hreply
  obtain ⟨s₁, p⟩ := e
  obtain ⟨s₁', p'⟩ := e'
  cases hends with
  | more _ => exact ⟨htwin, hreply⟩
  | done v _ =>
    cases v with
    | entered =>
      exact ⟨htwin.guarded (congrArg (· ++ [_]) htwin.guards), agrees_flag true⟩
    | refused => exact ⟨htwin, hreply⟩
    | finished => exact ⟨htwin, hreply⟩
    | failed f => exact ⟨htwin, hreply⟩

theorem withIndex_twin (h : Twin M s s' [] []) (ht : t ∈ s.team.alive) (n : Option Nat)
    (f : State L T → Index → State L T × Reply) (f' : State L' T' → Index → State L' T' × Reply)
    (hf : ∀ {s₁ s₁'}, s₁.lock = s.lock → Twin M s₁ s₁' [] [] → ∀ i i',
      Twin M (f s₁ i).1 (f' s₁' i').1 [] [] ∧ Agrees M (f s₁ i).2 (f' s₁' i').2) :
    Twin M (s.withIndex t n f).1 (s'.withIndex t n f').1 [] [] ∧
      Agrees M (s.withIndex t n f).2 (s'.withIndex t n f').2 := by
  unfold State.withIndex
  split
  · exact hf rfl h _ _
  · exact hf (alike_indexFor s t).lock (h.indexed ht) _ _

/-- The thread is alive, unless it exits. -/
theorem perform_twin (h : Twin M s s' [] []) {op : Op} (hop : op.isCommon = true) (ht : op = .exit ∨ t ∈ s.team.alive)
    (hr : Allows M s t op) : Twin M (s.perform t op).1 (s'.perform t op).1 [] [] ∧
      Agrees M (s.perform t op).2.1 (s'.perform t op).2.1 := by
  cases op with
  | enter n =>
    refine withIndex_twin h (ht.resolve_left (by simp)) n (fun s i => s.enter t i n) (fun s i => s.enter t i n) ?_
    intro s₁ s₁' hl h₁ i i'
    exact enter_twin h₁ n (hl ▸ hr) i i'
  | leave n =>
    refine withIndex_twin h (ht.resolve_left (by simp)) (some n) (fun s i => s.leaveMany t i n)
      (fun s i => s.leaveMany t i n) ?_
    intro s₁ s₁' hl h₁ i i'
    exact leaveMany_twin n h₁ (hl ▸ hr) i i'
  | block => exact block_twin h none
  | unblock => exact unblock_twin h hr
  | read g => exact read_twin h (ht.resolve_left (by simp)) g hr
  | write g => exact block_twin h (some g)
  | drop g =>
    have hguard := guard?_twin h t g
    unfold Allows at hr
    cases hg : s.guard? t g with
    | none =>
      simp only [State.perform, hguard, hg]
      exact ⟨h, agrees_of_ne (by simp)⟩
    | some g' =>
      simp only [hg] at hr
      simp only [State.perform, hguard, hg]
      refine drop_twin h (ht.resolve_left (by simp)) g' ?_
      obtain ⟨u, name, kind⟩ := g'
      cases kind <;> exact hr
  | formatGuard g f =>
    have hguard := guard?_twin h t g
    cases hg : s.guard? t g <;> simp only [State.perform, hguard, hg] <;> exact ⟨h, agrees_of_ne (by simp)⟩
  | readers =>
    obtain ⟨n, hn, hn'⟩ := M.readers h.lock
    simp only [State.perform, hn, hn']
    exact ⟨h, agrees_count n.toNat⟩
  | isBlocked =>
    simp only [State.perform, M.isBlocked h.lock]
    exact ⟨h, agrees_flag _⟩
  | tally op =>
    cases op with
    | flush =>
      have hteam := h.team.flush t h.team.alive s.team.registry s'.team.registry
      exact ⟨⟨h.lock, hteam, h.guards, h.standing, h.going, h.raised⟩, agrees_tally .flushed⟩
    | _ => cases hop
  | exit =>
    obtain ⟨hteam, hflag⟩ := h.team.exit t
    have hguards : s'.guards.filter (·.thread != t) = s.guards.filter (·.thread != t) := by rw [h.guards]
    refine ⟨⟨h.lock, hteam, hguards, h.standing, h.going, h.raised⟩, ?_⟩
    show Agrees M (.flag (s.team.exit t).2) (.flag (s'.team.exit t).2)
    rw [hflag]
    exact agrees_flag _
  | _ => cases hop

/-! ## Every run -/

/-- The same reply, the same writers through, and the same to be seen of the lock. -/
structure Report.Same (r r' : Report) : Prop where
  reply : r'.reply = r.reply
  finished : r'.finished.map Finished.outcome = r.finished.map Finished.outcome
  readers : r'.readers = r.readers
  blocked : r'.blocked = r.blocked

/-- No other faults. -/
structure Report.Tame (Fails : Fault → Prop) (r : Report) : Prop where
  reply : ∀ f, r.reply = .fault f → Fails f
  finished : ∀ x ∈ r.finished, ∀ f, x.reply = .fault f → Fails f
  readers : ∀ f, r.readers = .error f → Fails f

theorem map_outcome_mergeSort (fs : List Finished) : (fs.mergeSort State.byThread).map Finished.outcome =
    (fs.map Finished.outcome).mergeSort fun a b => decide (a.1 ≤ b.1) :=
  List.map_mergeSort fun _ _ _ _ => rfl

theorem step_twin (h : Twin M s s' [] []) {op : Op} (hop : op.isCommon = true) (hr : Allows M s t op) :
    Twin M (s.stepOf false t op).1 (s'.stepOf false t op).1 [] [] ∧
      (s.stepOf false t op).2.Same (s'.stepOf false t op).2 ∧ (s.stepOf false t op).2.Tame M.Fails := by
  have halive : op = .exit ∨ t ∈ (s.ready t op).team.alive := by
    by_cases hexit : op = .exit
    · exact .inl hexit
    · right
      rw [s.alive_ready hexit]
      exact List.mem_insert_self
  obtain ⟨hperform, hreply⟩ := perform_twin (h.ready t op) hop halive (hr.alike (s.alike_ready t op))
  unfold State.stepOf
  rw [s.attemptOf_false, s'.attemptOf_false]
  generalize (s.ready t op).perform t op = e at hperform hreply
  generalize (s'.ready t op).perform t op = e' at hperform hreply
  obtain ⟨s₁, r, log⟩ := e
  obtain ⟨s₁', r', log'⟩ := e'
  have hlength : s₁'.waiting.length = s₁.waiting.length := hperform.standing.length_eq.symm
  obtain ⟨hsettle, hfinish⟩ := settle_twin (s₁.waiting.length + 1) hperform
  dsimp only
  rw [hlength]
  obtain ⟨n, hn, hn'⟩ := M.readers hsettle.lock
  refine ⟨hsettle, ⟨hreply.1, ?_, hn'.trans hn.symm, M.isBlocked hsettle.lock⟩, hreply.2, ?_, ?_⟩
  · rw [map_outcome_mergeSort, map_outcome_mergeSort, hfinish.1]
  · intro x hx
    exact hfinish.2 x (List.mem_mergeSort.mp hx)
  · intro f hf
    rw [hn] at hf
    cases hf

variable (M) in
def AllowsRun (s : State L T) : List (Thread × Op) → Prop
  | [] => True
  | (t, op) :: ops => Allows M s t op ∧ AllowsRun (s.stepOf false t op).1 ops

theorem run_twin (ops : List (Thread × Op)) (h : Twin M s s' [] []) (hops : ∀ e ∈ ops, e.2.isCommon = true)
    (hr : AllowsRun M s ops) : Twin M (s.runOf false ops).1 (s'.runOf false ops).1 [] [] ∧
      List.Forall₂ Report.Same (s.runOf false ops).2 (s'.runOf false ops).2 ∧
      ∀ r ∈ (s.runOf false ops).2, r.Tame M.Fails := by
  induction ops generalizing s s' with
  | nil => exact ⟨h, .nil, fun _ hr => absurd hr List.not_mem_nil⟩
  | cons e ops ih =>
    obtain ⟨t, op⟩ := e
    obtain ⟨hop, hops⟩ := List.forall_mem_cons.mp hops
    obtain ⟨htwin, hsame, htame⟩ := step_twin h hop hr.1
    obtain ⟨hlast, hsames, htames⟩ := ih htwin hops hr.2
    exact ⟨hlast, .cons hsame hsames, List.forall_mem_cons.mpr ⟨htame, htames⟩⟩

theorem who_twin (h : Twin M s s' rest rest') : s'.waiting.map Writer.who = s.waiting.map Writer.who := by
  have hstanding := h.standing
  generalize s.waiting = ws at hstanding
  generalize s'.waiting = ws' at hstanding
  induction hstanding with
  | nil => rfl
  | cons hw _ ih => rw [List.map_cons, List.map_cons, hw.1, ih]

/-- What is refused of the one is refused of the other. -/
theorem refusal_twin (h : Twin M s s' [] []) (t : Thread) {op : Op} (hop : op.isCommon = true) :
    s'.isWaiting t = s.isWaiting t ∧ (s'.consider t op).2 = (s.consider t op).2 := by
  have hwho := who_twin h
  have hempty : s'.waiting.isEmpty = s.waiting.isEmpty := by
    rw [← List.isEmpty_map (f := Writer.who), hwho, List.isEmpty_map]
  refine ⟨?_, ?_⟩
  · have hany : ∀ {L T : Type} (s : State L T), s.isWaiting t = (s.waiting.map Writer.who).any (·.1 == t) := by
      intro L T s
      rw [List.any_map]
      rfl
    rw [hany, hany, hwho]
  · cases op with
    | block => simp only [State.consider, M.crowded h.lock]
    | write g => simp only [State.consider, M.crowded h.lock]
    | unblock => simp only [State.consider, hempty]
    | leave n =>
      unfold State.consider
      rw [hempty]
      by_cases hw : s.waiting.isEmpty = true
      · simp only [hw, ↓reduceIte]
      · simp only [hw, State.refusedLeave, (alike_indexFor s t).lock, (alike_indexFor s' t).lock]
        rw [M.readersOn h.lock (s.indexFor t).2 (s'.indexFor t).2]
        rfl
    | leaveAt i n => cases hop
    | _ => rfl

theorem begun_twin (ops : List (Thread × Op)) (h : Twin M s s' [] []) (hops : ∀ e ∈ ops, e.2.isCommon = true)
    (hr : AllowsRun M s ops) : s'.Begun ops ↔ s.Begun ops := by
  induction ops generalizing s s' with
  | nil => exact Iff.rfl
  | cons e ops ih =>
    obtain ⟨t, op⟩ := e
    obtain ⟨hop, hops⟩ := List.forall_mem_cons.mp hops
    obtain ⟨hwaiting, hconsider⟩ := refusal_twin h t hop
    have hrest := ih (step_twin h hop hr.1).1 hops hr.2
    show (s'.isWaiting t = false ∧ (s'.consider t op).2 = none) ∧ (s'.stepOf false t op).1.Begun ops ↔
      (s.isWaiting t = false ∧ (s.consider t op).2 = none) ∧ (s.stepOf false t op).1.Begun ops
    rw [hwaiting, hconsider, hrest]

end

end Locks

end BusyWait.LockStep
