import BusyWait.Stats.Counter

/-
  BusyWait.Stats.Basic — the ten counters of locks and queues.

  Four count samples with a size, six count events. `SizeName` and `EventName` name
  them; `Stats.size` and `Stats.event` look one up, and recording changes just that one.
-/

namespace BusyWait

inductive SizeName where
  /-- Failed swaps of one attempt to read. -/
  | readCasFailures
  /-- Failed swaps before a writer's bit was set, on each word. -/
  | writeCasFailures
  /-- Polls of a writer before the readers were out, on each word. -/
  | writeWaitYields
  /-- Failed dequeues before a waiting operation returned. -/
  | queueEmptyPolls
  deriving DecidableEq, Repr

inductive EventName where
  | readRejected
  | backoffSpin
  | backoffYield
  | backoffSleep
  | queueInterrupted
  | queueTimeout
  deriving DecidableEq, Repr

structure Stats where
  readCasFailures : Size
  readRejected : Event
  writeCasFailures : Size
  writeWaitYields : Size
  backoffSpin : Event
  backoffYield : Event
  backoffSleep : Event
  queueEmptyPolls : Size
  queueInterrupted : Event
  queueTimeout : Event
  deriving DecidableEq, Repr

namespace Stats

def empty : Stats :=
  ⟨.empty, .none, .empty, .empty, .none, .none, .none, .empty, .none, .none⟩

def size (s : Stats) : SizeName → Size
  | .readCasFailures => s.readCasFailures
  | .writeCasFailures => s.writeCasFailures
  | .writeWaitYields => s.writeWaitYields
  | .queueEmptyPolls => s.queueEmptyPolls

def event (s : Stats) : EventName → Event
  | .readRejected => s.readRejected
  | .backoffSpin => s.backoffSpin
  | .backoffYield => s.backoffYield
  | .backoffSleep => s.backoffSleep
  | .queueInterrupted => s.queueInterrupted
  | .queueTimeout => s.queueTimeout

def sample (s : Stats) (n : Nat) : SizeName → Stats
  | .readCasFailures => { s with readCasFailures := s.readCasFailures.record n }
  | .writeCasFailures => { s with writeCasFailures := s.writeCasFailures.record n }
  | .writeWaitYields => { s with writeWaitYields := s.writeWaitYields.record n }
  | .queueEmptyPolls => { s with queueEmptyPolls := s.queueEmptyPolls.record n }

def happened (s : Stats) : EventName → Stats
  | .readRejected => { s with readRejected := s.readRejected.happened }
  | .backoffSpin => { s with backoffSpin := s.backoffSpin.happened }
  | .backoffYield => { s with backoffYield := s.backoffYield.happened }
  | .backoffSleep => { s with backoffSleep := s.backoffSleep.happened }
  | .queueInterrupted => { s with queueInterrupted := s.queueInterrupted.happened }
  | .queueTimeout => { s with queueTimeout := s.queueTimeout.happened }

def merge (s t : Stats) : Stats where
  readCasFailures := s.readCasFailures.merge t.readCasFailures
  readRejected := s.readRejected.merge t.readRejected
  writeCasFailures := s.writeCasFailures.merge t.writeCasFailures
  writeWaitYields := s.writeWaitYields.merge t.writeWaitYields
  backoffSpin := s.backoffSpin.merge t.backoffSpin
  backoffYield := s.backoffYield.merge t.backoffYield
  backoffSleep := s.backoffSleep.merge t.backoffSleep
  queueEmptyPolls := s.queueEmptyPolls.merge t.queueEmptyPolls
  queueInterrupted := s.queueInterrupted.merge t.queueInterrupted
  queueTimeout := s.queueTimeout.merge t.queueTimeout

/-! ## One counter at a time -/

@[simp] theorem size_sample (s : Stats) (n : Nat) (a b : SizeName) :
    (s.sample n a).size b = if a = b then (s.size b).record n else s.size b := by
  cases a <;> cases b <;> rfl

@[simp] theorem event_sample (s : Stats) (n : Nat) (a : SizeName) (b : EventName) :
    (s.sample n a).event b = s.event b := by
  cases a <;> cases b <;> rfl

@[simp] theorem size_happened (s : Stats) (a : EventName) (b : SizeName) :
    (s.happened a).size b = s.size b := by
  cases a <;> cases b <;> rfl

@[simp] theorem event_happened (s : Stats) (a b : EventName) :
    (s.happened a).event b = if a = b then (s.event b).happened else s.event b := by
  cases a <;> cases b <;> rfl

@[simp] theorem size_merge (s t : Stats) (a : SizeName) : (s.merge t).size a = (s.size a).merge (t.size a) := by
  cases a <;> rfl

@[simp] theorem event_merge (s t : Stats) (a : EventName) :
    (s.merge t).event a = (s.event a).merge (t.event a) := by
  cases a <;> rfl

end Stats

end BusyWait
