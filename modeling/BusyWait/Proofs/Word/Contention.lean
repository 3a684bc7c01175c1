import BusyWait.Lock.Patient
import BusyWait.Proofs.Tiers
import BusyWait.Proofs.Word.Misuse
import Mathlib.Data.List.Chain

/-
  BusyWait.Proofs.Word.Contention — a reader on its way in, whatever the others do.

  Before each access of the reader others have left some word, and nothing is said of
  which (`amid`). The reader decides anew on every word that a failed swap shows it, so
  that all words but the last it has seen had room and no writer, and no two in a row are
  the same (`Entry.Seen`); it ends by what the last one says (`Entry.Ending`). A failed
  swap is told how many there were before, so what was told is 0, 1, 2, ...

  A reader that backs off makes the same accesses. It waits for each number that was told,
  in the tier that its policy has for it, as long as it can count its failures
  (`PatientLock.amid_noted`); its sample is the number of these waits, and nothing of it is
  left to the next call.

  - `Entry.sees`: by induction on the words that are still to come.
  - `readers_contend`: all this for any words, and for calls one after the other.
-/

namespace BusyWait

open LockStep.Words

/-! ## Amid others -/

section
variable {σ τ ρ ω : Type} {step : σ → τ → σ × Progress τ ρ} {disturb : σ → ω → σ} {s : σ} {t : τ} {w : ω}
  {ws : List ω}

/-- A task before each of whose accesses others have put something into the state: the states after
    its accesses, and its result or what is left of it when there is nothing more to come. -/
def amid (step : σ → τ → σ × Progress τ ρ) (disturb : σ → ω → σ) : σ → τ → List ω → List σ × Progress τ ρ
  | _, t, [] => ([], .more t)
  | s, t, w :: ws =>
    match step (disturb s w) t with
    | (s, .more t) => (s :: (amid step disturb s t ws).1, (amid step disturb s t ws).2)
    | (s, .done r) => ([s], .done r)

/-- What comes after an access that has led to `p`. -/
def resume (step : σ → τ → σ × Progress τ ρ) (disturb : σ → ω → σ) (s : σ) (ws : List ω) :
    Progress τ ρ → List σ × Progress τ ρ
  | .more t => amid step disturb s t ws
  | .done r => ([], .done r)

theorem amid_cons {s' : σ} {p : Progress τ ρ} (h : step (disturb s w) t = (s', p)) :
    amid step disturb s t (w :: ws) = (s' :: (resume step disturb s' ws p).1, (resume step disturb s' ws p).2) := by
  rw [amid, h]
  cases p <;> rfl

end

/-! ## The loop of a reader -/

/-- The number of failures before the next one. -/
theorem next?_ofNat {k : Nat} (h : k < 2 ^ 32) :
    next? (UInt32.ofNat k) = if k + 1 < 2 ^ 32 then some (UInt32.ofNat (k + 1)) else none := by
  have hlast : UInt32.ofNat k = 0xFFFFFFFF ↔ ¬k + 1 < 2 ^ 32 := by
    rw [← UInt32.toNat_inj, UInt32.toNat_ofNat_of_lt' h]
    show k = 0xFFFFFFFF ↔ _
    omega
  unfold next?
  by_cases hk : k + 1 < 2 ^ 32
  · rw [if_neg fun he => hlast.mp he hk, if_pos hk, UInt32.ofNat_add]
    rfl
  · rw [if_pos (hlast.mpr hk), if_neg hk]

namespace Entry

/-- The accesses of a reader: the word, and the failed swaps it was told of, after each of them. -/
def tried (ws : List Word) : List (Word × List UInt32) × Progress Entry (Except Fault Bool) :=
  amid watched (fun s w => (w, s.2)) (.free, []) .look ws

/-- The words that it leaves. -/
def left (ws : List Word) : List Word := (tried ws).1.map (·.1)

/-- What its failed swaps were told. -/
def told (ws : List Word) : List UInt32 := ((tried ws).1.getLastD (.free, [])).2

/-- A reader has seen these words, and last `v`; it was told of its failed swaps. -/
structure Seen (before : List Word) (v : Word) (told : List UInt32) : Prop where
  room : ∀ u ∈ before, u.bit 30 = false ∧ u.low < 2 ^ 30 - 1
  changed : (before ++ [v]).IsChain (· ≠ ·)
  told : told = (List.range before.length).map UInt32.ofNat

/-- How it ends, or where it is, after finding words of `ws`: the words that it has left. -/
inductive Ending (ws before : List Word) (v : Word) : List Word → Progress Entry (Except Fault Bool) → Prop
  /-- The swap finds `v` once more, and puts one reader more in its place. -/
  | entered (hw : before ++ [v, v] <+: ws) (hp : v.bit 30 = false) (hroom : v.low < 2 ^ 30 - 1)
    (hv : v.enter.bits.toNat = v.bits.toNat + 1) (hfew : before.length < 2 ^ 32) :
    Ending ws before v (before ++ [v, v.enter]) (.done (.ok true))
  | refused (hw : before ++ [v] <+: ws) (hp : v.bit 30 = true) (hfew : before.length < 2 ^ 32) :
    Ending ws before v (before ++ [v]) (.done (.ok false))
  | full (hw : before ++ [v] <+: ws) (hp : v.bit 30 = false) (hfull : v.low = 2 ^ 30 - 1) :
    Ending ws before v (before ++ [v]) (.done (.error .tooManyReaders))
  /-- The failed swaps are too many to be counted. -/
  | uncounted (hw : before ++ [v] <+: ws) (hmany : before.length = 2 ^ 32) :
    Ending ws before v (before ++ [v]) (.done (.error .sumOverflow))
  /-- No word is left to be found. -/
  | trying (hw : before ++ [v] = ws) (hp : v.bit 30 = false) (hroom : v.low < 2 ^ 30 - 1) :
    Ending ws before v ws (.more (.swap v (UInt32.ofNat before.length)))

/-- What is decided on a word. -/
theorem judge_eq (v : Word) (n : UInt32) : judge v n =
    if v.bit 30 then .done (.ok false)
    else if v.low < 2 ^ 30 - 1 then .more (.swap v n)
    else .done (.error .tooManyReaders) := by
  have hlow : v.low < 2 ^ 30 := Nat.mod_lt _ (by decide)
  have hroom : v.readers < Word.maxReaders ↔ v.low < 2 ^ 30 - 1 := by
    rw [v.readers_lt_max]
    omega
  simp only [judge, v.writerPending_eq, hroom]

variable {before : List Word} {v : Word} {ns : List UInt32}

/-- A failed swap shows another word. -/
theorem Seen.next (h : Seen before v ns) (hp : v.bit 30 = false) (hroom : v.low < 2 ^ 30 - 1) {w : Word}
    (hne : w ≠ v) : Seen (before ++ [v]) w (ns ++ [UInt32.ofNat before.length]) where
  room u hu := by
    rcases List.mem_append.mp hu with hu | hu
    · exact h.room u hu
    · obtain rfl := List.mem_singleton.mp hu
      exact ⟨hp, hroom⟩
  changed := by
    rw [List.isChain_append]
    refine ⟨h.changed, .singleton _, ?_⟩
    intro x hx y hy
    simp only [List.getLast?_append, List.getLast?_singleton, Option.some_or, Option.mem_some_iff, List.head?_cons]
      at hx hy
    rw [← hx, ← hy]
    exact Ne.symm hne
  told := by rw [h.told, List.length_append, List.length_singleton, List.range_succ, List.map_append]; rfl

theorem watched_swap_same (v : Word) (ns : List UInt32) (n : UInt32) :
    watched (v, ns) (.swap v n) = ((v.enter, ns), .done (.ok true)) := by
  simp [watched, step, contended]

theorem watched_swap_other {w : Word} (hne : w ≠ v) {k : Nat} (hk : k < 2 ^ 32) :
    watched (w, ns) (.swap v (UInt32.ofNat k)) = ((w, ns ++ [UInt32.ofNat k]),
      if k + 1 < 2 ^ 32 then judge w (UInt32.ofNat (k + 1)) else .done (.error .sumOverflow)) := by
  simp only [watched, step, contended, if_neg hne, next?_ofNat hk, Option.toList_some]
  by_cases hfew : k + 1 < 2 ^ 32
  · rw [if_pos hfew, if_pos hfew]
  · rw [if_neg hfew, if_neg hfew]

/-- The word that was seen last ends it, or there will be a swap. -/
theorem judged (hfew : before.length < 2 ^ 32) (ws : List Word) (n : UInt32) :
    (∃ r, judge v n = .done r ∧ Ending (before ++ v :: ws) before v (before ++ [v]) (.done r)) ∨
      (judge v n = .more (.swap v n) ∧ v.bit 30 = false ∧ v.low < 2 ^ 30 - 1) := by
  have hfirst : before ++ [v] <+: before ++ v :: ws := ⟨ws, by simp⟩
  rw [judge_eq]
  cases hp : v.bit 30 with
  | true => exact .inl ⟨_, rfl, .refused hfirst hp hfew⟩
  | false =>
    rw [if_neg Bool.false_ne_true]
    by_cases hroom : v.low < 2 ^ 30 - 1
    · rw [if_pos hroom]
      exact .inr ⟨rfl, rfl, hroom⟩
    · have hlow : v.low < 2 ^ 30 := Nat.mod_lt _ (by decide)
      rw [if_neg hroom]
      exact .inl ⟨_, rfl, .full hfirst hp (by omega)⟩

/-- From a word that was just seen, by induction on the words that are still to be found. -/
theorem sees (ws : List Word) (h : Seen before v ns) (hfew : before.length < 2 ^ 32)
    {r : List (Word × List UInt32) × Progress Entry (Except Fault Bool)}
    (hr : resume watched (fun s w => (w, s.2)) (v, ns) ws (judge v (UInt32.ofNat before.length)) = r) :
    ∃ before' v', Seen before' v' (r.1.getLastD (v, ns)).2 ∧
      Ending (before ++ v :: ws) before' v' (before ++ v :: r.1.map (·.1)) r.2 := by
  induction ws generalizing before v ns r with
  | nil =>
    rcases judged hfew [] (UInt32.ofNat before.length) with ⟨r', hj, he⟩ | ⟨hj, hp, hroom⟩
    · rw [← hr, hj]
      exact ⟨before, v, h, he⟩
    · rw [← hr, hj]
      exact ⟨before, v, h, .trying rfl hp hroom⟩
  | cons w ws ih =>
    rcases judged hfew (w :: ws) (UInt32.ofNat before.length) with ⟨r', hj, he⟩ | ⟨hj, hp, hroom⟩
    · rw [← hr, hj]
      exact ⟨before, v, h, he⟩
    rw [hj, resume] at hr
    by_cases hw : w = v
    · subst hw
      rw [← hr, amid_cons (watched_swap_same w ns _)]
      exact ⟨before, w, h, .entered ⟨ws, by simp⟩ hp hroom (Word.bits_enter (by omega)).1 hfew⟩
    · have hnext := h.next hp hroom hw
      have hsplit : ∀ us : List Word, before ++ v :: w :: us = before ++ [v] ++ w :: us :=
        fun us => List.append_cons before v (w :: us)
      rw [amid_cons (watched_swap_other hw hfew)] at hr
      simp only [← hr, List.getLastD_cons, List.map_cons, hsplit]
      by_cases hk : before.length + 1 < 2 ^ 32
      · rw [if_pos hk]
        exact ih hnext (by simpa using hk) (by rw [List.length_append, List.length_singleton])
      · rw [if_neg hk]
        have hmany : (before ++ [v]).length = 2 ^ 32 := by
          rw [List.length_append, List.length_singleton]
          omega
        exact ⟨_, _, hnext, .uncounted ⟨ws, by simp⟩ hmany⟩

theorem seen_first (v : Word) : Seen [] v [] := ⟨(fun _ hu => nomatch hu), .singleton v, rfl⟩

theorem tried_sees (w : Word) (ws : List Word) : ∃ before v, Seen before v (told (w :: ws)) ∧
    Ending (w :: ws) before v (left (w :: ws)) (tried (w :: ws)).2 := by
  have hlook : watched (w, []) .look = ((w, []), judge w 0) := by simp [watched, step, contended]
  have htried : tried (w :: ws) = _ := amid_cons hlook
  have hsees := sees ws (seen_first w) (by decide) rfl
  rw [told, left, htried, List.getLastD_cons]
  exact hsees

/-- A reader with an answer has been told of fewer failed swaps than 32 bits can count. -/
theorem told_lt {ws : List Word} {b : Bool} (hb : (tried ws).2 = .done (.ok b)) : (told ws).length < 2 ^ 32 := by
  cases ws with
  | nil => exact Nat.two_pow_pos 32
  | cons w ws =>
    obtain ⟨before, v, hseen, hends⟩ := tried_sees w ws
    rw [hseen.told, List.length_map, List.length_range]
    generalize left (w :: ws) = words at hends
    rw [hb] at hends
    cases hends with
    | entered _ _ _ _ hfew | refused _ _ hfew => exact hfew

/-- A reader writes at most once. -/
theorem Ending.once {ws left : List Word} {p : Progress Entry (Except Fault Bool)} (h : Ending ws before v left p)
    {i j : Nat} (hi : i < left.length) (hj : j < left.length) (hwi : left[i]? ≠ ws[i]?) (hwj : left[j]? ≠ ws[j]?) :
    i = j := by
  -- all but the swap that succeeds leave the word as it is
  have same : ∀ {us : List Word} {k : Nat}, us <+: ws → k < us.length → us[k]? = ws[k]? := by
    intro us k ⟨rest, hrest⟩ hk
    rw [← hrest, List.getElem?_append_left hk]
  have last : ∀ k < before.length + 2, (before ++ [v, v.enter])[k]? ≠ ws[k]? → before ++ [v, v] <+: ws →
      k = before.length + 1 := by
    intro k hk hne hw
    by_contra hlast
    have hk' : k < (before ++ [v]).length := by
      rw [List.length_append, List.length_singleton]
      omega
    have hsplit : ∀ u, before ++ [v, u] = before ++ [v] ++ [u] := fun u => List.append_cons before v [u]
    apply hne
    rw [← same hw (by simp; omega), hsplit, hsplit, List.getElem?_append_left hk', List.getElem?_append_left hk']
  cases h with
  | entered hw => exact (last i (by simpa using hi) hwi hw).trans (last j (by simpa using hj) hwj hw).symm
  | refused hw | full hw | uncounted hw => exact absurd (same hw hi) hwi
  | trying => exact absurd rfl hwi

end Entry

/-! ## A reader that backs off -/

namespace PatientLock

open Entry

/-- What a reader records at its end, after so many waits. -/
def closing (waited : UInt32) : Progress Entry (Except Fault Bool) → List Note
  | .done (.ok true) => [.sample .readCasFailures waited]
  | .done (.ok false) => [.sample .readCasFailures waited, .event .readRejected]
  | _ => []

/-- How it ends, or what is left of it. -/
def concluded (waited : UInt32) : Progress Entry (Except Fault Bool) → Progress Task Verdict
  | .more e => .more (.enter e waited)
  | .done (.ok true) => .done .entered
  | .done (.ok false) => .done .refused
  | .done (.error f) => .done (.failed f)

/-- The failed swaps that are waited for: those that can be counted. -/
def paused (told : List UInt32) : List UInt32 := told.take 0xFFFFFFFF

/-- The notes of a reader that has been told of these failed swaps. -/
def notesOf (p : Policy) (told : List UInt32) (e : Progress Entry (Except Fault Bool)) : List Note :=
  (paused told).flatMap p.wait ++ closing (UInt32.ofNat told.length) e

theorem notesOf_more (p : Policy) (told : List UInt32) (e : Entry) :
    notesOf p told (.more e) = (paused told).flatMap p.wait :=
  List.append_nil _

/-- The word is what others have left there; the policy is not theirs to change. -/
def disturb (s : PatientLock × List Note) (w : Word) : PatientLock × List Note := ({ s.1 with word := w }, s.2)

/-- The loop has counted its failed swaps: as many as it was told of. -/
inductive Counts (told : List UInt32) : Entry → Prop
  | look (h : told = []) : Counts told .look
  | swap (v : Word) (h : told.length < 2 ^ 32) : Counts told (.swap v (UInt32.ofNat told.length))

theorem Counts.lt {told : List UInt32} {e : Entry} (h : Counts told e) : told.length < 2 ^ 32 := by
  cases h with
  | look h =>
    rw [h]
    decide
  | swap v h => exact h

theorem counts_judge {told : List UInt32} (h : told.length < 2 ^ 32) {w : Word} {e : Entry}
    (hj : judge w (UInt32.ofNat told.length) = .more e) : Counts told e := by
  rw [judge_eq] at hj
  split at hj
  · cases hj
  · split at hj
    · cases hj
      exact .swap w h
    · cases hj

/-- An access that is not the last keeps count. -/
theorem Counts.next {w w' : Word} {told told' : List UInt32} {e e' : Entry} (h : Counts told e)
    (hs : watched (w, told) e = ((w', told'), .more e')) : Counts told' e' := by
  cases h with
  | look h =>
    subst h
    have hlook : watched (w, []) .look = ((w, []), judge w 0) := by simp [watched, Entry.step, contended]
    obtain ⟨hstate, hj⟩ := Prod.mk.inj (hlook.symm.trans hs)
    cases hstate
    exact counts_judge (by decide) hj
  | swap v h =>
    by_cases hw : w = v
    · subst hw
      rw [watched_swap_same] at hs
      cases hs
    · rw [watched_swap_other hw h] at hs
      obtain ⟨hstate, hj⟩ := Prod.mk.inj hs
      cases hstate
      by_cases hfew : told.length + 1 < 2 ^ 32
      · rw [if_pos hfew] at hj
        exact counts_judge (by simpa using hfew) (by simpa using hj)
      · rw [if_neg hfew] at hj
        cases hj

/-- A failed swap more is waited for if it can be counted. -/
theorem waits_concat (l : PatientLock) {told : List UInt32} (h : told.length < 2 ^ 32) (k : UInt32) :
    (paused (told ++ [k])).flatMap l.policy.wait =
      (paused told).flatMap l.policy.wait ++ l.pause (UInt32.ofNat told.length) k := by
  unfold paused pause
  rw [next?_ofNat h]
  by_cases hfew : told.length + 1 < 2 ^ 32
  · rw [List.take_of_length_le (by simp; omega), List.take_of_length_le (by omega), if_pos hfew]
    simp
  · rw [List.take_append_of_le_length (by omega), if_neg hfew]
    simp

/-- One access: that of the loop, and a wait for what it was told. -/
theorem noted_enter (w : Word) (p : Policy) (before : List Note) {told : List UInt32} {e : Entry} (h : Counts told e) :
    Lock.noted ((⟨w, p⟩ : PatientLock), before ++ (paused told).flatMap p.wait) (.enter e (UInt32.ofNat told.length)) =
      ((⟨(watched (w, told) e).1.1, p⟩,
          before ++ notesOf p (watched (w, told) e).1.2 (watched (w, told) e).2),
        concluded (UInt32.ofNat (watched (w, told) e).1.2.length) (watched (w, told) e).2) := by
  have hwaits := waits_concat ⟨w, p⟩ h.lt
  rcases hs : e.step w with ⟨w', e' | f | _ | _⟩ <;> cases hc : e.contended w <;>
    simp [Lock.noted, Lock.step, step, watched, hs, hc, notesOf, closing, concluded, hwaits]

/-- The accesses of a call, from one of them on, by induction on the words that others leave. -/
theorem amid_noted (ws : List Word) (w w' : Word) (p : Policy) (before : List Note) {told : List UInt32} {e : Entry}
    (h : Counts told e) {r : List (Word × List UInt32) × Progress Entry (Except Fault Bool)}
    (hr : amid watched (fun s w => (w, s.2)) (w', told) e ws = r) :
    let told' := (r.1.getLastD (w', told)).2
    ∃ r' : List (PatientLock × List Note) × Progress Task Verdict,
      amid Lock.noted disturb (⟨w, p⟩, before ++ (paused told).flatMap p.wait)
          (.enter e (UInt32.ofNat told.length)) ws = r' ∧
        r'.1.map (·.1) = r.1.map (fun s => ⟨s.1, p⟩) ∧ r'.2 = concluded (UInt32.ofNat told'.length) r.2 ∧
        (r'.1.getLastD (⟨w, p⟩, before ++ (paused told).flatMap p.wait)).2 = before ++ notesOf p told' r.2 := by
  induction ws generalizing w w' told e r with
  | nil =>
    subst hr
    exact ⟨_, rfl, rfl, rfl, by simp [amid, notesOf, closing]⟩
  | cons v ws ih =>
    have hnoted := noted_enter v p before h
    rcases hs : watched (v, told) e with ⟨⟨u, told'⟩, e' | b⟩
    · rw [hs] at hnoted
      simp only [notesOf_more, concluded] at hnoted
      obtain ⟨r', hamid, hwords, hends, hnotes⟩ := ih u u (h.next hs) rfl
      rw [amid_cons hs] at hr
      subst hr
      refine ⟨_, amid_cons hnoted, ?_⟩
      simp only [resume, hamid, List.map_cons, List.getLastD_cons, hwords, hends, hnotes, and_self]
    · rw [hs] at hnoted
      rw [amid_cons hs] at hr
      subst hr
      rcases b with f | _ | _
      all_goals
        refine ⟨_, amid_cons hnoted, ?_⟩
        exact ⟨rfl, rfl, rfl⟩

/-! ## The tiers of its waits -/

/-- The tiers of the attempts 0, 1, 2, ... -/
def firstTiers (p : Policy) (n : Nat) : List Tier := (List.range n).map fun k => p.tier (UInt32.ofNat k)

/-- What was told is 0, 1, 2, ... -/
theorem told_eq (ws : List Word) : told ws = (List.range (told ws).length).map UInt32.ofNat := by
  cases ws with
  | nil => rfl
  | cons w ws =>
    obtain ⟨before, v, hseen, -⟩ := tried_sees w ws
    rw [hseen.told, List.length_map, List.length_range]

theorem map_paused_told (p : Policy) (ws : List Word) :
    (paused (told ws)).map p.tier = firstTiers p (min (told ws).length 0xFFFFFFFF) := by
  rw [paused, told_eq ws, ← List.map_take, List.take_range, List.map_map, List.length_map, List.length_range,
    Nat.min_comm]
  rfl

theorem tiers_notesOf (p : Policy) (ws : List Word) :
    Note.tiers (notesOf p (told ws) (tried ws).2) = firstTiers p (min (told ws).length 0xFFFFFFFF) := by
  have hclosing : ∀ n e, Note.tiers (closing n e) = [] := by
    intro n e
    rcases e with _ | _ | _ | _ <;> rfl
  rw [notesOf, Note.tiers_append, hclosing, List.append_nil, p.tiers_waits, map_paused_told]

/-- A call of a lock, and the notes so far after it. -/
def enterAmid (s : PatientLock × List Note) (call : Index × List Word) : PatientLock × List Note :=
  (amid Lock.noted disturb s (Lock.enter s.1 call.1) call.2).1.getLastD s

/-- What a lock that backs off does with a reader. -/
structure Backs (l : PatientLock) : Prop where
  /-- It makes the accesses of the loop, and waits for each number that a failed swap was told. -/
  call : ∀ (before : List Note) (i : Index) (ws : List Word),
    ∃ r, amid Lock.noted disturb (l, before) (Lock.enter l i) ws = r ∧
      r.1.map (·.1) = (left ws).map (fun w => { l with word := w }) ∧
      r.2 = concluded (UInt32.ofNat (told ws).length) (tried ws).2 ∧
      (r.1.getLastD (l, before)).2 = before ++ notesOf l.policy (told ws) (tried ws).2
  /-- It has waited in the tiers of 0, 1, 2, ..., once for each failed swap; only the last of 2^32 is not counted
      any more, and not waited for. -/
  tiers : ∀ ws, Note.tiers (notesOf l.policy (told ws) (tried ws).2) =
    firstTiers l.policy (min (told ws).length 0xFFFFFFFF)
  /-- What it records: for each wait the event of its tier, and at the end their number. -/
  recorded : ∀ ws, Note.samples (notesOf l.policy (told ws) (tried ws).2) =
    (firstTiers l.policy (min (told ws).length 0xFFFFFFFF)).map (fun t => Sample.event t.event) ++
      Note.samples (closing (UInt32.ofNat (told ws).length) (tried ws).2)
  sampled : ∀ ws b, (tried ws).2 = .done (.ok b) →
    (UInt32.ofNat (told ws).length).toNat = (Note.tiers (notesOf l.policy (told ws) (tried ws).2)).length
  /-- Each call of a series does so, as if it were the first. -/
  calls : ∀ (before : List Note) (calls : List (Index × List Word)),
    (calls.foldl enterAmid (l, before)).1.policy = l.policy ∧
      (calls.foldl enterAmid (l, before)).2 =
        before ++ calls.flatMap fun c => notesOf l.policy (told c.2) (tried c.2).2
  /-- So the tiers begin anew with each call. -/
  anew : ∀ calls : List (Index × List Word), Note.tiers (calls.foldl enterAmid (l, [])).2 =
    calls.flatMap fun c => firstTiers l.policy (min (told c.2).length 0xFFFFFFFF)

theorem call_amid (l : PatientLock) (before : List Note) (i : Index) (ws : List Word) :
    ∃ r, amid Lock.noted disturb (l, before) (Lock.enter l i) ws = r ∧
      r.1.map (·.1) = (left ws).map (fun w => { l with word := w }) ∧
      r.2 = concluded (UInt32.ofNat (told ws).length) (tried ws).2 ∧
      (r.1.getLastD (l, before)).2 = before ++ notesOf l.policy (told ws) (tried ws).2 := by
  obtain ⟨r', hamid, hwords, hends, hnotes⟩ := amid_noted ws l.word .free l.policy before (.look rfl) rfl
  simp only [paused, List.take_nil, List.flatMap_nil, List.append_nil] at hamid hnotes
  refine ⟨r', hamid, ?_, hends, hnotes⟩
  rw [hwords, left, List.map_map]
  rfl

/-- After a call the policy is what it was. -/
theorem enterAmid_eq (s : PatientLock × List Note) (call : Index × List Word) :
    (enterAmid s call).1.policy = s.1.policy ∧
      (enterAmid s call).2 = s.2 ++ notesOf s.1.policy (told call.2) (tried call.2).2 := by
  obtain ⟨r, hr, hlocks, -, hnotes⟩ := call_amid s.1 s.2 call.1 call.2
  refine ⟨?_, by rw [enterAmid, hr]; exact hnotes⟩
  rw [enterAmid, hr]
  cases hlast : r.1.getLast? with
  | none => rw [List.getLastD_eq_getLast?, hlast]; rfl
  | some t =>
    have ht : t.1 ∈ r.1.map (·.1) := List.mem_map_of_mem (List.mem_of_getLast? hlast)
    rw [hlocks, List.mem_map] at ht
    obtain ⟨w, -, hw⟩ := ht
    rw [List.getLastD_eq_getLast?, hlast, Option.getD_some, ← hw]

theorem calls_amid (l : PatientLock) (before : List Note) (calls : List (Index × List Word)) :
    (calls.foldl enterAmid (l, before)).1.policy = l.policy ∧
      (calls.foldl enterAmid (l, before)).2 =
        before ++ calls.flatMap fun c => notesOf l.policy (told c.2) (tried c.2).2 := by
  induction calls generalizing l before with
  | nil => exact ⟨rfl, by simp⟩
  | cons c calls ih =>
    obtain ⟨hpolicy, hnotes⟩ := enterAmid_eq (l, before) c
    obtain ⟨hpolicy', hnotes'⟩ := ih (enterAmid (l, before) c).1 (enterAmid (l, before) c).2
    rw [List.foldl_cons]
    refine ⟨hpolicy'.trans hpolicy, ?_⟩
    rw [hnotes', hpolicy, hnotes, List.flatMap_cons, List.append_assoc]

theorem backs (l : PatientLock) : l.Backs where
  call := call_amid l
  tiers := tiers_notesOf l.policy
  recorded ws := by
    rw [notesOf, Note.samples_append, l.policy.samples_waits, ← map_paused_told, List.map_map]
    rfl
  sampled ws b hb := by
    have hfew := told_lt hb
    rw [tiers_notesOf, firstTiers, List.length_map, List.length_range, UInt32.toNat_ofNat_of_lt' hfew]
    omega
  calls := calls_amid l
  anew calls := by
    rw [(calls_amid l [] calls).2, List.nil_append]
    induction calls with
    | nil => rfl
    | cons c calls ih => rw [List.flatMap_cons, Note.tiers_append, ih, tiers_notesOf, List.flatMap_cons]

end PatientLock

/-! ## Any words -/

/-- A reader between any words that others leave: `w` is the first that it finds. -/
structure Contends (w : Word) (ws : List Word) : Prop where
  /-- It leaves another word than it has found once at most. -/
  once : ∀ i j, i < (Entry.left (w :: ws)).length → j < (Entry.left (w :: ws)).length →
    (Entry.left (w :: ws))[i]? ≠ (w :: ws)[i]? → (Entry.left (w :: ws))[j]? ≠ (w :: ws)[j]? → i = j
  ends : ∃ before v, Entry.Seen before v (Entry.told (w :: ws)) ∧
    Entry.Ending (w :: ws) before v (Entry.left (w :: ws)) (Entry.tried (w :: ws)).2
  /-- Where it gets to an answer, the failed swaps are as many as are counted. -/
  counted : ∀ b, (Entry.tried (w :: ws)).2 = .done (.ok b) →
    (UInt32.ofNat (Entry.told (w :: ws)).length).toNat = (Entry.told (w :: ws)).length

/-- Whatever word there is first and whatever words others leave, and for every lock that backs off. -/
theorem readers_contend : (∀ w ws, Contends w ws) ∧ ∀ l : PatientLock, l.Backs := by
  refine ⟨?_, PatientLock.backs⟩
  intro w ws
  obtain ⟨before, v, hseen, hends⟩ := Entry.tried_sees w ws
  refine ⟨fun i j hi hj => hends.once hi hj, ⟨before, v, hseen, hends⟩, ?_⟩
  intro b hb
  exact UInt32.toNat_ofNat_of_lt' (Entry.told_lt hb)

/-- Twice another reader is faster, and then the swap finds what was seen. -/
example : Entry.tried [⟨4⟩, ⟨5⟩, ⟨6⟩, ⟨6⟩] =
    ([(⟨4⟩, []), (⟨5⟩, [0]), (⟨6⟩, [0, 1]), (⟨7⟩, [0, 1])], .done (.ok true)) := by decide

end BusyWait
