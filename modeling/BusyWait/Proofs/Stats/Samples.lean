import BusyWait.Stats.Book
import BusyWait.Stats.Summary
import Mathlib.Algebra.GroupWithZero.Nat
import Mathlib.Data.List.Perm.Basic

/-
  BusyWait.Proofs.Stats.Samples — what counters show of the samples they were given.

  The counters of a list of samples are those that record them one after the other
  (`Stats.of`). Their order does not matter (`Stats.of_perm`), and merging the counters
  of two lists gives those of both (`Stats.of_append`). A size shows the number, sum,
  least and largest of its samples, and an event their number (`Stats.shows_of`).

  Recording is merging one sample (`Stats.note_eq_merge`), so all sums that counters ever
  form are those of a merge (`Team.merges`). Of fewer than 2^32 samples each fits in 64
  bits (`Stats.sums_of_lt`).
-/

namespace BusyWait

/-- One call that records. -/
inductive Sample where
  | size (name : SizeName) (n : UInt32)
  | event (name : EventName)
  deriving DecidableEq, Repr

def Sample.note : Sample → Note
  | .size name n => .sample name n
  | .event name => .event name

def Note.sample? : Note → Option Sample
  | .sample name n => some (.size name n)
  | .event name => some (.event name)
  | .line _ | .waited _ => none

/-- What counters see of the notes. -/
def Note.samples (ns : List Note) : List Sample := ns.filterMap Note.sample?

@[simp] theorem Note.samples_append (ns ns' : List Note) : samples (ns ++ ns') = samples ns ++ samples ns' :=
  List.filterMap_append

/-! ## One counter -/

namespace Size

/-- The counter of these samples. -/
def of (xs : List Nat) : Size := xs.foldl record .empty

theorem record_comm (s : Size) (m n : Nat) : (s.record m).record n = (s.record n).record m := by
  obtain ⟨_ | e, c⟩ := s
  · simp [record, Nat.min_comm, Nat.max_comm, Nat.add_comm]
  · simp [record, Nat.min_assoc, Nat.max_assoc, Nat.add_assoc, Nat.min_comm m, Nat.max_comm m, Nat.add_comm m]

theorem merge_record (s t : Size) (n : Nat) : s.merge (t.record n) = (s.merge t).record n := by
  obtain ⟨_ | a, c⟩ := s
  · obtain ⟨_ | b, d⟩ := t <;> rfl
  · obtain ⟨_ | b, d⟩ := t
    · rfl
    · simp [merge, record, Extent.merge, Nat.min_assoc, Nat.max_assoc, Nat.add_assoc]

instance : RightCommutative record := ⟨record_comm⟩

theorem merge_foldl (xs : List Nat) (s t : Size) : s.merge (xs.foldl record t) = xs.foldl record (s.merge t) := by
  induction xs generalizing t with
  | nil => rfl
  | cons x xs ih => rw [List.foldl_cons, List.foldl_cons, ih, merge_record]

/-- The sums that merging `t` into `s` forms. -/
def sums (s t : Size) : List Nat :=
  (s.count + t.count) :: (s.extent.bind fun a => t.extent.map fun b => a.total + b.total).toList

theorem le_of_mem_sums {s t : Size} {n : Nat} (h : n ∈ s.sums t) :
    n = s.count + t.count ∨ n = s.total + t.total := by
  obtain ⟨a, c⟩ := s
  obtain ⟨b, d⟩ := t
  rcases List.mem_cons.mp h with h | h
  · exact .inl h
  · cases a with
    | none => cases h
    | some a =>
      cases b with
      | none => cases h
      | some b => exact .inr (List.mem_singleton.mp h)

/-- What the counter of `xs` is to show. -/
structure Shows (s : Size) (xs : List Nat) : Prop where
  count : s.count = xs.length
  total : s.total = xs.sum
  min : s.min? = xs.min?
  max : s.max? = xs.max?
  missing : s.extent = none ↔ xs = []
  average : s.average? = if xs = [] then none else some (.of xs.sum xs.length)
  /-- An average is never taken of nothing. -/
  divisor : s.average?.isSome = true → s.count ≠ 0

theorem min?_concat (xs : List Nat) (n : Nat) : (xs ++ [n]).min? = some ((xs.min?.map (Nat.min · n)).getD n) := by
  cases xs with
  | nil => rfl
  | cons x xs =>
    rw [List.cons_append, List.min?_cons', List.foldl_append, List.min?_cons']
    rfl

theorem max?_concat (xs : List Nat) (n : Nat) : (xs ++ [n]).max? = some ((xs.max?.map (Nat.max · n)).getD n) := by
  cases xs with
  | nil => rfl
  | cons x xs =>
    rw [List.cons_append, List.max?_cons', List.foldl_append, List.max?_cons']
    rfl

/-- One more sample. -/
theorem Shows.record {s : Size} {xs : List Nat} (h : s.Shows xs) (n : Nat) : (s.record n).Shows (xs ++ [n]) := by
  have hne : xs ++ [n] ≠ [] := List.append_ne_nil_of_right_ne_nil xs (List.cons_ne_nil n [])
  have htotal : (s.record n).total = (xs ++ [n]).sum := by
    rw [List.sum_append, ← h.total]
    obtain ⟨_ | e, c⟩ := s <;> simp [Size.record, Size.total]
  have hcount : (s.record n).count = (xs ++ [n]).length := by
    rw [List.length_append, ← h.count]
    rfl
  refine ⟨hcount, htotal, ?_, ?_, ?_, ?_, ?_⟩
  · rw [min?_concat, ← h.min]
    obtain ⟨_ | e, c⟩ := s <;> rfl
  · rw [max?_concat, ← h.max]
    obtain ⟨_ | e, c⟩ := s <;> rfl
  · exact iff_of_false (fun hnone => by cases hnone) hne
  · rw [if_neg hne, ← htotal, ← hcount]
    rfl
  · intro _ hzero
    rw [hcount, List.length_eq_zero_iff] at hzero
    exact hne hzero

theorem shows_foldl {s : Size} {xs ys : List Nat} (h : s.Shows xs) : (ys.foldl Size.record s).Shows (xs ++ ys) := by
  induction ys generalizing s xs with
  | nil =>
    rw [List.append_nil]
    exact h
  | cons y ys ih =>
    rw [List.append_cons]
    exact ih (h.record y)

theorem Shows.eq_empty {s : Size} {xs : List Nat} (h : s.Shows xs) (hcount : s.count = 0) : s = .empty := by
  have hnil : xs = [] := by
    rw [← List.length_eq_zero_iff, ← h.count]
    exact hcount
  have hextent := h.missing.mpr hnil
  obtain ⟨e, c⟩ := s
  obtain rfl : e = none := hextent
  obtain rfl : c = 0 := hcount
  rfl

theorem shows_empty : empty.Shows [] := ⟨rfl, rfl, rfl, rfl, iff_of_true rfl rfl, rfl, nofun⟩

theorem shows_of (xs : List Nat) : (of xs).Shows xs := shows_foldl shows_empty

end Size

/-! ## All ten -/

/-- The sizes recorded under a name. -/
def Sample.sizes (name : SizeName) (xs : List Sample) : List Nat :=
  xs.filterMap fun
    | .size m n => if m = name then some n.toNat else none
    | .event _ => none

def Sample.isSize (name : SizeName) : Sample → Bool
  | .size m _ => decide (m = name)
  | .event _ => false

theorem Sample.length_sizes (name : SizeName) (xs : List Sample) :
    (sizes name xs).length = xs.countP (isSize name) := by
  induction xs with
  | nil => rfl
  | cons x xs ih =>
    cases x with
    | event m => exact ih
    | size m n =>
      rw [List.countP_cons, ← ih]
      by_cases hm : m = name <;> simp [sizes, isSize, hm]

theorem Sample.sum_sizes (name : SizeName) (xs : List Sample) :
    (sizes name xs).sum ≤ xs.length * 0xFFFFFFFF := by
  induction xs with
  | nil => exact Nat.le_refl 0
  | cons x xs ih =>
    rw [List.length_cons, Nat.succ_mul]
    cases x with
    | event m => exact Nat.le_trans ih (Nat.le_add_right ..)
    | size m n =>
      have hn := n.toNat_lt
      by_cases hm : m = name
      · have hcons : sizes name (.size m n :: xs) = n.toNat :: sizes name xs := by simp [sizes, hm]
        rw [hcons, List.sum_cons]
        omega
      · have hcons : sizes name (.size m n :: xs) = sizes name xs := by simp [sizes, hm]
        rw [hcons]
        exact Nat.le_trans ih (Nat.le_add_right ..)

namespace Stats

theorem ext_counters {s t : Stats} (hs : ∀ n, s.size n = t.size n)
    (he : ∀ n, (s.event n).count = (t.event n).count) : s = t := by
  have hevent : ∀ n, s.event n = t.event n := fun n => congrArg Event.mk (he n)
  cases s
  cases t
  exact (Stats.mk.injEq ..).mpr ⟨hs .readCasFailures, hevent .readRejected, hs .writeCasFailures,
    hs .writeWaitYields, hevent .backoffSpin, hevent .backoffYield, hevent .backoffSleep, hs .queueEmptyPolls,
    hevent .queueInterrupted, hevent .queueTimeout⟩

theorem size_note (s : Stats) (x : Sample) (name : SizeName) :
    (s.note x.note).size name = (Sample.sizes name [x]).foldl Size.record (s.size name) := by
  cases x with
  | size m n =>
    by_cases hm : m = name <;> simp [note, Sample.note, Sample.sizes, hm]
  | event m => simp [note, Sample.note, Sample.sizes]

theorem event_note (s : Stats) (x : Sample) (name : EventName) :
    ((s.note x.note).event name).count = (s.event name).count + [x].count (.event name) := by
  cases x with
  | size m n => simp [note, Sample.note]
  | event m =>
    by_cases hm : m = name <;> simp [note, Sample.note, hm, Event.happened]

/-- The counters of these samples. -/
def of (xs : List Sample) : Stats := xs.foldl (fun s x => s.note x.note) .empty

theorem size_foldl (xs : List Sample) (s : Stats) (name : SizeName) :
    (xs.foldl (fun s x => s.note x.note) s).size name = (Sample.sizes name xs).foldl Size.record (s.size name) := by
  induction xs generalizing s with
  | nil => rfl
  | cons x xs ih =>
    have hsplit : Sample.sizes name (x :: xs) = Sample.sizes name [x] ++ Sample.sizes name xs :=
      List.filterMap_append (l := [x])
    rw [List.foldl_cons, ih, hsplit, List.foldl_append, size_note]

theorem event_foldl (xs : List Sample) (s : Stats) (name : EventName) :
    ((xs.foldl (fun s x => s.note x.note) s).event name).count = (s.event name).count + xs.count (.event name) := by
  induction xs generalizing s with
  | nil => rfl
  | cons x xs ih =>
    rw [List.foldl_cons, ih, event_note, Nat.add_assoc, ← List.count_append]
    rfl

theorem size_of (xs : List Sample) (name : SizeName) : (of xs).size name = .of (Sample.sizes name xs) := by
  unfold of
  rw [size_foldl]
  cases name <;> rfl

theorem event_of (xs : List Sample) (name : EventName) : ((of xs).event name).count = xs.count (.event name) := by
  unfold of
  rw [event_foldl]
  cases name <;> exact Nat.zero_add _

/-- What counters of `xs` are to show. -/
structure Shows (s : Stats) (xs : List Sample) : Prop where
  size : ∀ name, (s.size name).Shows (Sample.sizes name xs)
  event : ∀ name, (s.event name).count = xs.count (.event name)

theorem shows_of (xs : List Sample) : (of xs).Shows xs where
  size name := by
    rw [size_of]
    exact Size.shows_of _
  event := event_of xs

/-- Lines and waits are not counted. -/
theorem foldl_note (ns : List Note) (s : Stats) :
    ns.foldl note s = (Note.samples ns).foldl (fun s x => s.note x.note) s := by
  induction ns generalizing s with
  | nil => rfl
  | cons n ns ih => cases n <;> exact ih _

/-! ## In any order, and in parts -/

theorem note_comm (s : Stats) (x y : Sample) : (s.note x.note).note y.note = (s.note y.note).note x.note := by
  refine ext_counters ?_ ?_
  · intro name
    rw [size_note, size_note, size_note, size_note, ← List.foldl_append, ← List.foldl_append]
    exact List.perm_append_comm.foldl_eq _
  · intro name
    rw [event_note, event_note, event_note, event_note]
    omega

theorem of_perm {xs ys : List Sample} (h : xs.Perm ys) : of xs = of ys :=
  have : RightCommutative fun (s : Stats) (x : Sample) => s.note x.note := ⟨note_comm⟩
  h.foldl_eq _

theorem merge_note (s t : Stats) (x : Sample) : s.merge (t.note x.note) = (s.merge t).note x.note := by
  refine ext_counters ?_ ?_
  · intro name
    rw [size_merge, size_note, size_note, size_merge, Size.merge_foldl]
  · intro name
    rw [event_merge, event_note, event_merge]
    show _ + ((t.note x.note).event name).count = _
    rw [event_note, ← Nat.add_assoc]
    rfl

@[simp] theorem merge_empty (s : Stats) : s.merge .empty = s := by
  refine ext_counters ?_ ?_
  · intro name
    cases name <;> exact Size.merge_empty _
  · intro name
    cases name <;> rfl

theorem merge_foldl (xs : List Sample) (s t : Stats) :
    s.merge (xs.foldl (fun s x => s.note x.note) t) = xs.foldl (fun s x => s.note x.note) (s.merge t) := by
  induction xs generalizing t with
  | nil => rfl
  | cons x xs ih => rw [List.foldl_cons, List.foldl_cons, ih, merge_note]

theorem of_append (xs ys : List Sample) : of (xs ++ ys) = (of xs).merge (of ys) := by
  unfold of
  rw [List.foldl_append, merge_foldl, merge_empty]

/-- To record is to merge one sample. -/
theorem note_eq_merge (s : Stats) (x : Sample) : s.note x.note = s.merge (of [x]) := by
  have h := merge_note s .empty x
  rw [merge_empty] at h
  exact h.symm

/-- No samples are left where the counters are empty. -/
theorem eq_nil_of_of_eq_empty {xs : List Sample} (h : of xs = .empty) : xs = [] := by
  cases xs with
  | nil => rfl
  | cons x xs =>
    cases x with
    | size name n =>
      have hcount := ((shows_of (.size name n :: xs)).size name).count
      have hcons : Sample.sizes name (.size name n :: xs) = n.toNat :: Sample.sizes name xs := by simp [Sample.sizes]
      rw [h, hcons] at hcount
      cases name <;> cases hcount
    | event name =>
      have hcount := event_of (.event name :: xs) name
      rw [h, List.count_cons_self] at hcount
      cases name <;> cases hcount

/-! ## In 64 bits -/

/-- The sums that merging `t` into `s` forms. -/
def sums (s t : Stats) : List Nat :=
  SizeName.all.flatMap (fun name => (s.size name).sums (t.size name)) ++
    EventName.all.map fun name => (s.event name).count + (t.event name).count

theorem sums_of_lt {xs ys : List Sample} (h : xs.length + ys.length < 0x100000000) {n : Nat}
    (hn : n ∈ (of xs).sums (of ys)) : n < 0x10000000000000000 := by
  rcases List.mem_append.mp hn with hn | hn
  · obtain ⟨name, -, hn⟩ := List.mem_flatMap.mp hn
    have hx := (shows_of xs).size name
    have hy := (shows_of ys).size name
    rcases Size.le_of_mem_sums hn with rfl | rfl
    · rw [hx.count, hy.count, Sample.length_sizes, Sample.length_sizes]
      have := List.countP_le_length (p := Sample.isSize name) (l := xs)
      have := List.countP_le_length (p := Sample.isSize name) (l := ys)
      omega
    · rw [hx.total, hy.total]
      have := Sample.sum_sizes name xs
      have := Sample.sum_sizes name ys
      omega
  · obtain ⟨name, -, rfl⟩ := List.mem_map.mp hn
    rw [event_of, event_of]
    have := List.count_le_length (a := Sample.event name) (l := xs)
    have := List.count_le_length (a := Sample.event name) (l := ys)
    omega

end Stats

end BusyWait
