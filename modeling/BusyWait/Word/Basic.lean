/-
  BusyWait.Word.Basic — a reader count and a writer's flag in 32 bits.

  The low thirty bits count the readers inside. Bit thirty is the writer's: once it is
  set no reader gets in, and the word is the writer's alone when it is exactly that bit.
  Bit thirty-one belongs to neither; only a borrow out of the count can set it.

  `enter` and `leave` are plain 32-bit arithmetic, so a `leave` of a word that counts no
  reader borrows from the writer's bit. `raise` and `lower` touch that bit only.
-/

namespace BusyWait

structure Word where
  bits : UInt32
  deriving DecidableEq, Repr

namespace Word

def writerBit : UInt32 := 0x40000000

/-- The most readers that a word can count. -/
def maxReaders : UInt32 := writerBit - 1

/-- No reader and no writer. -/
def free : Word := ⟨0⟩

/-- Exactly the writer's bit: every reader is out and none can enter. -/
def owned : Word := ⟨writerBit⟩

def readers (w : Word) : UInt32 := w.bits % writerBit

def writerPending (w : Word) : Bool := w.bits / writerBit % 2 == 1

def enter (w : Word) : Word := ⟨w.bits + 1⟩

def leave (w : Word) : Word := ⟨w.bits - 1⟩

/-- Sets the writer's bit. -/
def raise (w : Word) : Word := if w.writerPending then w else ⟨w.bits + writerBit⟩

/-- Clears the writer's bit. -/
def lower (w : Word) : Word := if w.writerPending then ⟨w.bits - writerBit⟩ else w

/-! ## In natural numbers -/

theorem toNat_writerBit : writerBit.toNat = 0x40000000 := by decide

theorem toNat_maxReaders : maxReaders.toNat = 0x3FFFFFFF := by decide

theorem ext_toNat {v w : Word} (h : v.bits.toNat = w.bits.toNat) : v = w := by
  cases v; cases w; simpa [UInt32.toNat_inj] using h

theorem toNat_readers (w : Word) : w.readers.toNat = w.bits.toNat % 0x40000000 := by
  simp [readers, UInt32.toNat_mod, toNat_writerBit]

theorem writerPending_iff (w : Word) : w.writerPending = true ↔ w.bits.toNat / 0x40000000 % 2 = 1 := by
  simp [writerPending, ← UInt32.toNat_inj, UInt32.toNat_mod, UInt32.toNat_div, toNat_writerBit]

theorem toNat_enter (w : Word) : w.enter.bits.toNat = (w.bits.toNat + 1) % 0x100000000 := by
  simp [enter, UInt32.toNat_add]

theorem toNat_leave (w : Word) : w.leave.bits.toNat = (w.bits.toNat + (0xFFFFFFFF)) % 0x100000000 := by
  simp only [leave, UInt32.toNat_sub]
  simp
  omega

theorem toNat_raise (w : Word) :
    w.raise.bits.toNat = w.bits.toNat + if w.bits.toNat / 0x40000000 % 2 = 1 then 0 else 0x40000000 := by
  have hw := w.bits.toNat_lt
  have hp := w.writerPending_iff
  unfold raise
  split
  · simp_all
  · rename_i h
    rw [hp] at h
    rw [if_neg h, UInt32.toNat_add, toNat_writerBit]
    omega

theorem toNat_lower (w : Word) :
    w.lower.bits.toNat = w.bits.toNat - if w.bits.toNat / 0x40000000 % 2 = 1 then 0x40000000 else 0 := by
  have hw := w.bits.toNat_lt
  have hp := w.writerPending_iff
  unfold lower
  split
  · rename_i h
    rw [hp] at h
    rw [if_pos h]
    simp only [UInt32.toNat_sub, toNat_writerBit]
    omega
  · simp_all

theorem eq_owned_iff (w : Word) : w = owned ↔ w.bits.toNat = 0x40000000 :=
  ⟨fun h => h ▸ toNat_writerBit, fun h => ext_toNat (h.trans toNat_writerBit.symm)⟩

end Word

end BusyWait
