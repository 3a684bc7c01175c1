import BusyWait.Duration
import BusyWait.Log
import BusyWait.Stats.Basic

/-
  BusyWait.Note — what steps leave behind beside their effect on memory.

  A step may record, log or wait. Counters see what is recorded and the log what is
  logged. A wait is in one of three tiers; what its thread does meanwhile is for nobody
  to see, so that a note of it is kept of which neither counters nor log know.
-/

namespace BusyWait

/-- How a thread waits. -/
inductive Tier where
  /-- Spin for so many cycles. -/
  | spin (cycles : UInt32)
  /-- Give up the rest of the time slice. -/
  | yield
  | sleep (d : Duration)
  deriving DecidableEq, Repr

def Tier.shape : Tier → Text.Shape
  | .spin n => .wrap "Spin" [.nat n.toNat]
  | .yield => .word "Yield"
  | .sleep d => .wrap "Sleep" [d.shape]

/-- The counter that a wait of this tier adds to. -/
def Tier.event : Tier → EventName
  | .spin _ => .backoffSpin
  | .yield => .backoffYield
  | .sleep _ => .backoffSleep

inductive Note where
  | sample (name : SizeName) (size : UInt32)
  | event (name : EventName)
  | line (l : Line)
  /-- The thread has waited in this way. -/
  | waited (t : Tier)
  deriving DecidableEq, Repr

namespace Note

/-- The logged lines among the notes. -/
def lines (ns : List Note) : List Line :=
  ns.filterMap fun
    | .line l => some l
    | _ => none

/-- The waits among the notes, in order. -/
def tiers (ns : List Note) : List Tier :=
  ns.filterMap fun
    | .waited t => some t
    | _ => none

@[simp] theorem tiers_append (ns ns' : List Note) : tiers (ns ++ ns') = tiers ns ++ tiers ns' :=
  List.filterMap_append

end Note

def Stats.note (s : Stats) : Note → Stats
  | .sample name n => s.sample n.toNat name
  | .event name => s.happened name
  | .line _ | .waited _ => s

end BusyWait
