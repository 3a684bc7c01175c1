/-
  BusyWait.Log — the lines that operations log.

  Each line counts something that took time. Where the time that passed is not part of
  the run, the line is written `blurred`: with `_` in place of that count.
-/

namespace BusyWait

inductive Line where
  | retryBlocked (yields : UInt32)
  | countedBlocked (yields : UInt32)
  | patientBlocked (yields : UInt32)
  | stripeBlocked (stripe : Nat) (yields : UInt32)
  | stripedBlocked (stripes : Nat) (yields : UInt32)
  /-- The first attempt that sleeps. -/
  | escalated (attempts : UInt32)
  | drainIgnored
  | takeInterrupted (polls : UInt32)
  | pollInterrupted (polls : UInt32)
  deriving DecidableEq, Repr

inductive Level where
  | debug
  | trace
  deriving DecidableEq, Repr

def Level.text : Level → String
  | .debug => "DEBUG"
  | .trace => "TRACE"

namespace Line

def level : Line → Level
  | .stripeBlocked .. | .escalated _ => .trace
  | _ => .debug

/-- The line with its counts written by `count`. -/
def message (count : UInt32 → String) : Line → String
  | .retryBlocked n => "busy lock blocked after " ++ count n ++ " reader drain yields"
  | .countedBlocked n => "increment lock blocked after " ++ count n ++ " reader drain yields"
  | .patientBlocked n => "backoff lock blocked after " ++ count n ++ " reader drain yields"
  | .stripeBlocked i n => "stripe " ++ toString i ++ " blocked after " ++ count n ++ " yields"
  | .stripedBlocked k n =>
    "striped lock blocked " ++ toString k ++ " stripes after " ++ count n ++ " reader drain yields"
  | .escalated n => "backoff escalated to sleeping after " ++ count n ++ " failed attempts"
  | .drainIgnored => "drain_to is a no-op on a spinning queue, elements stay queued"
  | .takeInterrupted n => "take interrupted after " ++ count n ++ " empty polls"
  | .pollInterrupted n => "poll interrupted after " ++ count n ++ " empty polls"

def text (l : Line) : String := l.level.text ++ " " ++ l.message (fun n => toString n.toNat)

def blurred (l : Line) : String := l.level.text ++ " " ++ l.message (fun _ => "_")

end Line

end BusyWait
