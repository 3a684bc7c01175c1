import BusyWait.LockStep.Counters
import BusyWait.Proofs.Stats.Samples

/-
  BusyWait.Proofs.Stats.Ledger — where every sample is.

  A sample begins among those of the thread that recorded it. When that thread flushes,
  or ends, it goes over to the merged ones and stays there. The ledger keeps the samples
  by their number in the order of recording, so that two of the same name and size are
  not taken for one.

  - `Ledger.Parts`: every number is in exactly one place, among the merged samples or
    with one live thread.
  - `Book.Holds`: each set of counters shows what the ledger has in its place.
  - `samples_balanced`: both after all that threads can do to a team's counters, and in
    what order they did it is not seen in the end.
-/

namespace BusyWait

structure Ledger where
  /-- All samples so far. -/
  recorded : List Sample
  merged : List (Sample × Nat)
  kept : Thread → List (Sample × Nat)

namespace Ledger

def start : Ledger := ⟨[], [], fun _ => []⟩

/-- Thread `t` has `xs`, the others what they had. -/
def setKept (l : Ledger) (t : Thread) (xs : List (Sample × Nat)) : Thread → List (Sample × Nat) :=
  fun u => if u = t then xs else l.kept u

def record (l : Ledger) (t : Thread) (x : Sample) : Ledger :=
  ⟨l.recorded ++ [x], l.merged, l.setKept t (l.kept t ++ [(x, l.recorded.length)])⟩

def flush (l : Ledger) (t : Thread) : Ledger := ⟨l.recorded, l.merged ++ l.kept t, l.setKept t []⟩

@[simp] theorem setKept_self (l : Ledger) (t : Thread) (xs : List (Sample × Nat)) : l.setKept t xs t = xs :=
  if_pos rfl

theorem setKept_of_ne {l : Ledger} {t u : Thread} (h : u ≠ t) (xs : List (Sample × Nat)) :
    l.setKept t xs u = l.kept u := if_neg h

/-- Only the threads `us` have samples, and every sample is in one place. -/
structure Parts (l : Ledger) (us : List Thread) : Prop where
  nodup : us.Nodup
  absent : ∀ t, t ∉ us → l.kept t = []
  once : (l.merged ++ us.flatMap l.kept).Perm l.recorded.zipIdx

theorem parts_start : start.Parts [] := ⟨List.nodup_nil, fun _ _ => rfl, .nil⟩

section
variable {l : Ledger} {us : List Thread} (h : l.Parts us)

theorem flatMap_setKept (l : Ledger) {t : Thread} (ht : t ∉ us) (xs : List (Sample × Nat)) :
    us.flatMap (l.setKept t xs) = us.flatMap l.kept := by
  refine List.flatMap_congr ?_
  intro u hu
  refine setKept_of_ne ?_ xs
  rintro rfl
  exact ht hu

omit h in
/-- A thread's samples apart from those of the others. -/
theorem kept_apart (l : Ledger) {t : Thread} (ht : t ∈ us) :
    (us.flatMap l.kept).Perm (l.kept t ++ (us.erase t).flatMap l.kept) :=
  (List.perm_cons_erase ht).flatMap_right l.kept

include h

theorem Parts.apart_set {t : Thread} (ht : t ∈ us) (xs : List (Sample × Nat)) :
    (us.flatMap (l.setKept t xs)).Perm (xs ++ (us.erase t).flatMap l.kept) := by
  have hperm := (List.perm_cons_erase ht).flatMap_right (l.setKept t xs)
  rw [List.flatMap_cons, setKept_self, flatMap_setKept l h.nodup.not_mem_erase] at hperm
  exact hperm

/-- A thread that comes has none. -/
theorem Parts.come (t : Thread) : l.Parts (us.insert t) := by
  by_cases ht : t ∈ us
  · rw [List.insert_of_mem ht]
    exact h
  · rw [List.insert_of_not_mem ht]
    refine ⟨List.nodup_cons.mpr ⟨ht, h.nodup⟩, ?_, ?_⟩
    · intro u hu
      exact h.absent u fun hmem => hu (List.mem_cons_of_mem t hmem)
    · rw [List.flatMap_cons, h.absent t ht]
      exact h.once

theorem Parts.record {t : Thread} (ht : t ∈ us) (x : Sample) : (l.record t x).Parts us := by
  refine ⟨h.nodup, ?_, ?_⟩
  · intro u hu
    refine (setKept_of_ne ?_ _).trans (h.absent u hu)
    rintro rfl
    exact hu ht
  · have hlast : (l.recorded ++ [x]).zipIdx = l.recorded.zipIdx ++ [(x, l.recorded.length)] := by
      rw [List.zipIdx_append, Nat.zero_add]
      rfl
    show (l.merged ++ us.flatMap (l.setKept t (l.kept t ++ [(x, l.recorded.length)]))).Perm
      (l.recorded ++ [x]).zipIdx
    rw [hlast]
    calc l.merged ++ us.flatMap (l.setKept t (l.kept t ++ [(x, l.recorded.length)]))
      _ |>.Perm (l.merged ++ (l.kept t ++ [(x, l.recorded.length)] ++ (us.erase t).flatMap l.kept)) :=
        (h.apart_set ht _).append_left _
      _ |>.Perm (l.merged ++ (l.kept t ++ (us.erase t).flatMap l.kept ++ [(x, l.recorded.length)])) := by
        rw [List.append_assoc, List.append_assoc]
        exact (List.perm_append_comm.append_left _).append_left _
      _ |>.Perm (l.merged ++ us.flatMap l.kept ++ [(x, l.recorded.length)]) := by
        rw [← List.append_assoc]
        exact ((kept_apart l ht).symm.append_left _).append_right _
      _ |>.Perm (l.recorded.zipIdx ++ [(x, l.recorded.length)]) := h.once.append_right _

theorem Parts.flush (t : Thread) : (l.flush t).Parts us := by
  refine ⟨h.nodup, ?_, ?_⟩
  · intro u hu
    by_cases hut : u = t
    · rw [hut]
      exact setKept_self l t []
    · exact (setKept_of_ne hut []).trans (h.absent u hu)
  · show (l.merged ++ l.kept t ++ us.flatMap (l.setKept t [])).Perm l.recorded.zipIdx
    by_cases ht : t ∈ us
    · refine .trans ?_ h.once
      rw [List.append_assoc]
      exact (((h.apart_set ht []).append_left _).trans (kept_apart l ht).symm).append_left _
    · rw [h.absent t ht, flatMap_setKept l ht, List.append_nil]
      exact h.once

/-- A thread that ends takes no samples along. -/
theorem Parts.exit (t : Thread) : (l.flush t).Parts (us.erase t) := by
  have hf := h.flush t
  refine ⟨h.nodup.erase t, ?_, ?_⟩
  · intro u hu
    by_cases hut : u = t
    · rw [hut]
      exact setKept_self l t []
    · exact hf.absent u fun hmem => hu ((List.mem_erase_of_ne hut).mpr hmem)
  · by_cases ht : t ∈ us
    · have happart := kept_apart (l.flush t) ht
      have hnone : (l.flush t).kept t = [] := setKept_self l t []
      rw [hnone, List.nil_append] at happart
      exact (happart.symm.append_left _).trans hf.once
    · rw [List.erase_of_not_mem ht]
      exact hf.once

/-- Where no thread has any, all samples are merged. -/
theorem Parts.settled (hnone : ∀ t, l.kept t = []) : (l.merged.map (·.1)).Perm l.recorded := by
  have hflat : us.flatMap l.kept = [] := List.flatMap_eq_nil_iff.mpr fun t _ => hnone t
  have honce := h.once.map Prod.fst
  rw [hflat, List.append_nil, List.zipIdx_map_fst] at honce
  exact honce

/-- The merged samples and those of one thread are among the recorded. -/
theorem Parts.length_le (t : Thread) : l.merged.length + (l.kept t).length ≤ l.recorded.length := by
  have hlength := h.once.length_eq
  rw [List.length_append, List.length_zipIdx] at hlength
  by_cases ht : t ∈ us
  · have happart := (kept_apart l ht).length_eq
    rw [List.length_append] at happart
    omega
  · rw [h.absent t ht]
    exact Nat.le_trans (Nat.le_add_right ..) (Nat.le_of_eq hlength)

end

/-- Several samples of one thread. -/
def recordAll (l : Ledger) (t : Thread) (xs : List Sample) : Ledger := xs.foldl (·.record t) l

theorem recorded_recordAll (l : Ledger) (t : Thread) (xs : List Sample) :
    (l.recordAll t xs).recorded = l.recorded ++ xs := by
  unfold recordAll
  induction xs generalizing l with
  | nil => exact (List.append_nil _).symm
  | cons x xs ih =>
    rw [List.foldl_cons, ih]
    exact List.append_assoc l.recorded [x] xs

theorem merged_recordAll (l : Ledger) (t : Thread) (xs : List Sample) : (l.recordAll t xs).merged = l.merged := by
  unfold recordAll
  induction xs generalizing l with
  | nil => rfl
  | cons x xs ih =>
    rw [List.foldl_cons, ih]
    rfl

theorem kept_recordAll (l : Ledger) (t : Thread) (xs : List Sample) (u : Thread) :
    ((l.recordAll t xs).kept u).map (·.1) = (l.kept u).map (·.1) ++ if u = t then xs else [] := by
  unfold recordAll
  induction xs generalizing l with
  | nil => simp
  | cons x xs ih =>
    rw [List.foldl_cons, ih]
    by_cases hu : u = t
    · simp [record, hu]
    · simp [record, setKept_of_ne hu, hu]

theorem Parts.recordAll {l : Ledger} {us : List Thread} (h : l.Parts us) {t : Thread} (ht : t ∈ us)
    (xs : List Sample) : (l.recordAll t xs).Parts us := by
  unfold Ledger.recordAll
  induction xs generalizing l with
  | nil => exact h
  | cons x xs ih => exact ih (h.record ht x)

end Ledger

/-! ## The book -/

namespace Book

/-- Each set of counters shows what the ledger has in its place. -/
structure Holds (b : Book) (l : Ledger) : Prop where
  global : b.global = .of (l.merged.map (·.1))
  own : ∀ t, b.ownOf t = .of ((l.kept t).map (·.1))

theorem holds_empty : Book.empty.Holds .start := ⟨rfl, fun _ => rfl⟩

theorem ownOf_notes (b : Book) (t u : Thread) (ns : List Note) :
    (b.notes t ns).ownOf u = if u = t then ns.foldl Stats.note (b.ownOf t) else b.ownOf u := by
  unfold notes
  induction ns generalizing b with
  | nil => split <;> simp_all
  | cons n ns ih =>
    rw [List.foldl_cons, ih, List.foldl_cons]
    by_cases hu : u = t
    · rw [if_pos hu, if_pos hu]
      simp [note, ownOf]
    · rw [if_neg hu, if_neg hu]
      simp [note, ownOf, Ne.symm hu]

theorem global_notes (b : Book) (t : Thread) (ns : List Note) : (b.notes t ns).global = b.global := by
  induction ns generalizing b with
  | nil => rfl
  | cons n ns ih => rw [notes_cons, ih, global_note]

theorem ownOf_flush (b : Book) (t u : Thread) : (b.flush t).ownOf u = if u = t then .empty else b.ownOf u := by
  by_cases hu : u = t
  · simp [flush, ownOf, hu]
  · simp [flush, ownOf, hu, Ne.symm hu]

section
variable {b : Book} {l : Ledger} (h : b.Holds l)
include h

theorem Holds.notes (t : Thread) (ns : List Note) : (b.notes t ns).Holds (l.recordAll t (Note.samples ns)) := by
  refine ⟨?_, ?_⟩
  · rw [global_notes, h.global, Ledger.merged_recordAll]
  · intro u
    rw [ownOf_notes, Ledger.kept_recordAll]
    by_cases hu : u = t
    · rw [if_pos hu, if_pos hu, Stats.foldl_note, h.own, hu]
      exact (List.foldl_append ..).symm
    · rw [if_neg hu, if_neg hu, List.append_nil]
      exact h.own u

theorem Holds.flush (t : Thread) : (b.flush t).Holds (l.flush t) := by
  refine ⟨?_, ?_⟩
  · show b.global.merge (b.ownOf t) = .of ((l.merged ++ l.kept t).map (·.1))
    rw [List.map_append, Stats.of_append, ← h.global, ← h.own]
  · intro u
    rw [ownOf_flush]
    by_cases hu : u = t
    · rw [if_pos hu, hu]
      show _ = Stats.of ((l.setKept t [] t).map (·.1))
      rw [Ledger.setKept_self]
      rfl
    · rw [if_neg hu, h.own u]
      show _ = Stats.of ((l.setKept t [] u).map (·.1))
      rw [Ledger.setKept_of_ne hu]

theorem Holds.kept_nil {t : Thread} (ht : b.ownOf t = .empty) : l.kept t = [] :=
  List.map_eq_nil_iff.mp (Stats.eq_nil_of_of_eq_empty ((h.own t).symm.trans ht))

/-- When every thread's own counters are empty, the global ones show all samples. -/
theorem Holds.settled {us : List Thread} (hp : l.Parts us) (hown : ∀ t, b.ownOf t = .empty) :
    b.global = .of l.recorded := by
  rw [h.global]
  exact Stats.of_perm (hp.settled fun t => h.kept_nil (hown t))

end

end Book

/-! ## What threads do to a team's counters -/

namespace LockStep

inductive Deed where
  /-- A thread comes to life, if it has not. -/
  | come (t : Thread)
  | record (t : Thread) (x : Sample)
  | flush (t : Thread)
  | exit (t : Thread)
  deriving DecidableEq, Repr

namespace Team

def after (m : Team) : Deed → Team
  | .come t => m.join t
  | .record t x => (m.join t).note t [x.note]
  | .flush t => ((m.join t).tally t .flush).1
  | .exit t => (m.exit t).1

def afterAll (m : Team) (ds : List Deed) : Team := ds.foldl after m

/-- The sums that it forms in counters. -/
def sums (m : Team) : Deed → List Nat
  | .come _ => []
  | .record t x => (m.book.ownOf t).sums (.of [x])
  | .flush t | .exit t => m.book.global.sums (m.book.ownOf t)

/-- All that it does to counters is the merge that forms these sums. -/
def Merges (m : Team) : Deed → Prop
  | .come t => (m.after (.come t)).book = m.book
  | .record t x => (m.after (.record t x)).book.ownOf t = (m.book.ownOf t).merge (.of [x])
  | .flush t => (m.after (.flush t)).book.global = m.book.global.merge (m.book.ownOf t)
  | .exit t => t ∈ m.alive → (m.after (.exit t)).book.global = m.book.global.merge (m.book.ownOf t)

theorem merges (m : Team) (d : Deed) : m.Merges d := by
  cases d with
  | come t => rfl
  | record t x =>
    show (m.book.notes t [x.note]).ownOf t = _
    rw [Book.ownOf_notes, if_pos rfl, ← Stats.note_eq_merge]
    rfl
  | flush t => rfl
  | exit t =>
    intro ht
    show (m.exit t).1.book.global = _
    unfold exit
    rw [if_pos (List.contains_iff_mem.mpr ht)]
    rfl

end Team

end LockStep

open LockStep

def Ledger.after (l : Ledger) : Deed → Ledger
  | .come _ => l
  | .record t x => l.record t x
  | .flush t | .exit t => l.flush t

/-- The ledger of these deeds. -/
def Ledger.of (ds : List Deed) : Ledger := ds.foldl after .start

/-- The ledger has every sample in one place, with live threads only, and the counters show it. -/
structure Tallied (m : Team) (l : Ledger) : Prop where
  parts : l.Parts m.alive
  holds : m.book.Holds l

theorem Tallied.come {m : Team} {l : Ledger} (h : Tallied m l) (t : Thread) : Tallied (m.join t) l :=
  ⟨h.parts.come t, h.holds⟩

theorem tallied_after {m : Team} {l : Ledger} (h : Tallied m l) (d : Deed) : Tallied (m.after d) (l.after d) := by
  cases d with
  | come t => exact h.come t
  | record t x =>
    have hj := h.come t
    have hx : Note.samples [x.note] = [x] := by cases x <;> rfl
    have hn := hj.holds.notes t [x.note]
    rw [hx] at hn
    exact ⟨hj.parts.record List.mem_insert_self x, hn⟩
  | flush t =>
    have hj := h.come t
    exact ⟨hj.parts.flush t, hj.holds.flush t⟩
  | exit t =>
    by_cases ht : m.alive.contains t = true
    · have hexit : m.after (.exit t) = ⟨m.alive.erase t, m.registry.exit t, m.book.exit t⟩ :=
        congrArg Prod.fst (if_pos ht)
      rw [hexit]
      exact ⟨h.parts.exit t, h.holds.flush t⟩
    · -- It was not there, and so has no samples.
      have hexit : m.after (.exit t) = m := congrArg Prod.fst (if_neg ht)
      rw [hexit]
      have hnone : l.kept t = [] := h.parts.absent t fun hmem => ht (List.contains_iff_mem.mpr hmem)
      have hsame : l.flush t = l := by
        have hkept : l.setKept t [] = l.kept := by
          funext u
          by_cases hu : u = t
          · rw [hu, Ledger.setKept_self, hnone]
          · exact Ledger.setKept_of_ne hu []
        simp only [Ledger.flush, hkept, hnone, List.append_nil]
      show Tallied m (l.flush t)
      rw [hsame]
      exact h

theorem tallied_afterAll (ds : List Deed) {m : Team} {l : Ledger} (h : Tallied m l) :
    Tallied (m.afterAll ds) (ds.foldl Ledger.after l) := by
  induction ds generalizing m l with
  | nil => exact h
  | cons d ds ih => exact ih (tallied_after h d)

theorem tallied_of (ds : List Deed) : Tallied (Team.start.afterAll ds) (.of ds) :=
  tallied_afterAll ds ⟨Ledger.parts_start, Book.holds_empty⟩

/-- No sum goes beyond the samples that there are after it. -/
theorem Tallied.sums_lt {m : Team} {l : Ledger} (h : Tallied m l) (d : Deed)
    (hlt : (l.after d).recorded.length < 0x100000000) {n : Nat} (hn : n ∈ m.sums d) : n < 0x10000000000000000 := by
  have hmerge : ∀ t, l.recorded.length < 0x100000000 → n ∈ m.book.global.sums (m.book.ownOf t) →
      n < 0x10000000000000000 := by
    intro t hl hmem
    rw [h.holds.global, h.holds.own t] at hmem
    refine Stats.sums_of_lt ?_ hmem
    rw [List.length_map, List.length_map]
    exact Nat.lt_of_le_of_lt (h.parts.length_le t) hl
  cases d with
  | come t => cases hn
  | record t x =>
    have hlength : (l.record t x).recorded.length = l.recorded.length + 1 := List.length_append
    have hle := h.parts.length_le t
    change n ∈ (m.book.ownOf t).sums (.of [x]) at hn
    rw [h.holds.own t] at hn
    refine Stats.sums_of_lt ?_ hn
    rw [List.length_map]
    show (l.kept t).length + 1 < _
    change (l.record t x).recorded.length < _ at hlt
    omega
  | flush t => exact hmerge t hlt hn
  | exit t => exact hmerge t hlt hn

/-! ## Every run -/

/-- What an operation on counters does to them. -/
def LockStep.Counters.Op.deeds (t : Thread) : Counters.Op → List Deed
  | .size name n k => .come t :: List.replicate k (.record t (.size name n))
  | .event name k => .come t :: List.replicate k (.record t (.event name))
  | .flush => [.flush t]
  | .exit => [.exit t]
  | _ => [.come t]

theorem LockStep.Team.join_of_mem {m : Team} {t : Thread} (ht : t ∈ m.alive) : m.join t = m := by
  unfold join
  rw [List.insert_of_mem ht]

theorem LockStep.Team.afterAll_replicate {m : Team} {t : Thread} (ht : t ∈ m.alive) (x : Sample) (k : Nat) :
    m.afterAll (List.replicate k (.record t x)) = k.repeat (Team.note · t [x.note]) m ∧
      t ∈ (m.afterAll (List.replicate k (.record t x))).alive := by
  induction k with
  | zero => exact ⟨rfl, ht⟩
  | succ k ih =>
    have hlast : m.afterAll (List.replicate (k + 1) (.record t x)) =
        (m.afterAll (List.replicate k (.record t x))).note t [x.note] := by
      unfold afterAll
      rw [List.replicate_succ', List.foldl_append]
      exact congrArg (Team.note · t [x.note]) (join_of_mem ih.2)
    rw [hlast]
    exact ⟨congrArg (Team.note · t [x.note]) ih.1, ih.2⟩

theorem LockStep.Counters.step_deeds (m : Team) (t : Thread) (op : Counters.Op) :
    (Counters.step m t op).1 = m.afterAll (op.deeds t) := by
  have hmem : t ∈ (m.join t).alive := List.mem_insert_self
  cases op with
  | size name n k => exact (Team.afterAll_replicate hmem (.size name n) k).1.symm
  | event name k => exact (Team.afterAll_replicate hmem (.event name) k).1.symm
  | debugOne name => cases name <;> rfl
  | _ => rfl

/-- The team after these operations. -/
def LockStep.Counters.team (m : Team) (ops : List (Thread × Counters.Op)) : Team :=
  ops.foldl (fun m e => (Counters.step m e.1 e.2).1) m

theorem LockStep.Counters.team_deeds (m : Team) (ops : List (Thread × Counters.Op)) :
    Counters.team m ops = m.afterAll (ops.flatMap fun e => e.2.deeds e.1) := by
  unfold team
  induction ops generalizing m with
  | nil => rfl
  | cons e ops ih =>
    rw [List.foldl_cons, ih, step_deeds]
    unfold Team.afterAll
    rw [List.flatMap_cons, List.foldl_append]

def LockStep.Deed.sample? : Deed → Option Sample
  | .record _ x => some x
  | _ => none

theorem Ledger.recorded_of (ds : List Deed) : (Ledger.of ds).recorded = ds.filterMap Deed.sample? := by
  have hfold : ∀ l : Ledger, (ds.foldl after l).recorded = l.recorded ++ ds.filterMap Deed.sample? := by
    induction ds with
    | nil => exact fun l => (List.append_nil _).symm
    | cons d ds ih =>
      intro l
      rw [List.foldl_cons, ih]
      cases d with
      | record t x => exact List.append_assoc l.recorded [x] _
      | _ => rfl
  exact hfold .start

/-- Where the samples of these deeds are, and what the counters show of them. -/
structure Balanced (ds : List Deed) : Prop where
  recorded : (Ledger.of ds).recorded = ds.filterMap Deed.sample?
  /-- Every sample is merged or with one live thread, and in one place only. -/
  parts : (Ledger.of ds).Parts (Team.start.afterAll ds).alive
  global : (Team.start.afterAll ds).book.global.Shows ((Ledger.of ds).merged.map (·.1))
  own : ∀ t, ((Team.start.afterAll ds).book.ownOf t).Shows (((Ledger.of ds).kept t).map (·.1))
  /-- Once all threads have flushed or ended, it is not seen in what order, or by whom, the same was recorded. -/
  unordered : ∀ ds', ((Ledger.of ds').recorded).Perm (Ledger.of ds).recorded →
    (∀ t, (Team.start.afterAll ds).book.ownOf t = .empty) → (∀ t, (Team.start.afterAll ds').book.ownOf t = .empty) →
    (Team.start.afterAll ds').book.global = (Team.start.afterAll ds).book.global
  /-- What is done next merges counters, and of fewer than 2^32 samples the sums of that fit in 64 bits. -/
  merges : ∀ d, (Team.start.afterAll ds).Merges d
  fits : ∀ d, (Ledger.of (ds ++ [d])).recorded.length < 0x100000000 →
    ∀ n ∈ (Team.start.afterAll ds).sums d, n < 0x10000000000000000

theorem balanced_of (ds : List Deed) : Balanced ds := by
  have h := tallied_of ds
  refine ⟨Ledger.recorded_of ds, h.parts, ?_, ?_, ?_, Team.merges _, ?_⟩
  · rw [h.holds.global]
    exact Stats.shows_of _
  · intro t
    rw [h.holds.own t]
    exact Stats.shows_of _
  · intro ds' hperm hown hown'
    have h' := tallied_of ds'
    rw [h.holds.settled h.parts hown, h'.holds.settled h'.parts hown']
    exact Stats.of_perm hperm
  · intro d hlt n hn
    have hlast : Ledger.of (ds ++ [d]) = (Ledger.of ds).after d := List.foldl_append
    rw [hlast] at hlt
    exact h.sums_lt d hlt hn

/-- No sample is lost or counted twice, whatever threads do to a team's counters; and operations on counters
    do just such deeds. -/
theorem samples_balanced : (∀ ds, Balanced ds) ∧ ∀ ops : List (Thread × Counters.Op),
    Counters.team .start ops = Team.start.afterAll (ops.flatMap fun e => e.2.deeds e.1) :=
  ⟨balanced_of, Counters.team_deeds .start⟩

/-- One flushes and goes on, one ends, and one of its name comes after it. -/
example : (Team.start.afterAll [.record 0 (.size .readCasFailures 3), .flush 0, .record 1 (.size .readCasFailures 1),
    .record 0 (.event .readRejected), .exit 1, .come 1]).book.global.readCasFailures = ⟨some ⟨1, 3, 4⟩, 2⟩ := by decide

end BusyWait
