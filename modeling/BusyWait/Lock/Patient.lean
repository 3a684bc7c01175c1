import BusyWait.Lock.Retry

/-
  BusyWait.Lock.Patient — one word, and readers that back off after a failed swap.

  Each failed swap is counted, and then waits as the policy says for the number of failures
  before it. Leaving and blocking know nothing of the policy.
-/

namespace BusyWait

structure PatientLock where
  word : Word
  policy : Policy
  deriving DecidableEq, Repr

namespace PatientLock

def new (policy : Policy) : PatientLock := ⟨.free, policy⟩

inductive Task where
  /-- A reader on its way in, and how often it has waited. -/
  | enter (e : Entry) (waited : UInt32)
  | leave
  | block (s : Session)
  | unblock
  deriving DecidableEq, Repr

/-- What a failed swap leaves that was told `attempt`: it is counted first, and is not waited for if it does not fit. -/
def pause (l : PatientLock) (waited attempt : UInt32) : List Note :=
  if (next? waited).isSome then l.policy.wait attempt else []

def step (l : PatientLock) : Task → PatientLock × Progress Task Verdict × List Note
  | .enter e waited =>
    let contended := e.contended l.word
    let pause := (contended.map (l.pause waited)).getD []
    let waited := if contended.isSome then waited + 1 else waited
    match e.step l.word with
    | (w, .more e) => ({ l with word := w }, .more (.enter e waited), pause)
    | (w, .done (.ok true)) => ({ l with word := w }, .done .entered, pause ++ [.sample .readCasFailures waited])
    | (w, .done (.ok false)) =>
      ({ l with word := w }, .done .refused,
        pause ++ [.sample .readCasFailures waited, .event .readRejected])
    | (w, .done (.error f)) => ({ l with word := w }, .done (.failed f), pause)
  | .leave => ({ l with word := l.word.release.1 }, .done (.ofExcept l.word.release.2), [])
  | .block s =>
    match s.step l.word with
    | (w, .more s) => ({ l with word := w }, .more (.block s), [])
    | (w, .done (.ok (failures, yields))) =>
      ({ l with word := w }, .done .finished,
        [.sample .writeCasFailures failures, .sample .writeWaitYields yields,
          .line (.patientBlocked yields)])
    | (w, .done (.error f)) => ({ l with word := w }, .done (.failed f), [])
  | .unblock => ({ l with word := l.word.unblock.1 }, .done (.ofExcept l.word.unblock.2), [])

def waits (l : PatientLock) : Task → Bool
  | .block s => s.waits l.word
  | _ => false

end PatientLock

instance : Lock PatientLock PatientLock.Task where
  spread _ := false
  enter _ _ := .enter .look 0
  leave _ _ := .leave
  block _ := .block .start
  unblock _ := .unblock
  step := PatientLock.step
  waits := PatientLock.waits
  bound _ := 4
  readers l := .ok l.word.readers
  isBlocked l := l.word.writerPending
  readersOn l _ := l.word.readers
  crowded l n := n < l.word.readers
  policy? l := some l.policy
  stripes? _ := none
  shape l := .record "BackoffBusyLock" [("state", l.word.shape), ("policy", l.policy.shape)]

end BusyWait
