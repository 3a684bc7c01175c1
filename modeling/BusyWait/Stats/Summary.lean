import BusyWait.Decimal.Places
import BusyWait.Decimal.Shortest
import BusyWait.Stats.Basic
import BusyWait.Text.Pad
import BusyWait.Text.Shape

/-
  BusyWait.Stats.Summary — counters in writing.

  An average is the sum divided by the count, both as binary64 numbers. The summary
  opens the counters up and adds three lines: the share of refused reads and the failed
  swaps for each, the waits of each backoff tier, and the polls for each queue wait.
-/

namespace BusyWait

open Text Decimal

namespace SizeName

def all : List SizeName := [.readCasFailures, .writeCasFailures, .writeWaitYields, .queueEmptyPolls]

def text : SizeName → String
  | .readCasFailures => "read_cas_failures"
  | .writeCasFailures => "write_cas_failures"
  | .writeWaitYields => "write_wait_yields"
  | .queueEmptyPolls => "queue_empty_polls"

def ofText? (s : String) : Option SizeName := all.find? (·.text == s)

end SizeName

namespace EventName

def all : List EventName :=
  [.readRejected, .backoffSpin, .backoffYield, .backoffSleep, .queueInterrupted, .queueTimeout]

def text : EventName → String
  | .readRejected => "read_rejected"
  | .backoffSpin => "backoff_spin"
  | .backoffYield => "backoff_yield"
  | .backoffSleep => "backoff_sleep"
  | .queueInterrupted => "queue_interrupted"
  | .queueTimeout => "queue_timeout"

def ofText? (s : String) : Option EventName := all.find? (·.text == s)

end EventName

/-- Missing without samples. -/
def Size.average? (s : Size) : Option Ratio := s.extent.map fun e => .of e.total s.count

def Size.shape (s : Size) : Shape :=
  let part (n : Option Nat) := Shape.optional (n.map .nat)
  .record "Size"
    [("count", .nat s.count), ("min", part s.min?), ("max", part s.max?),
      ("total", part (s.extent.map (·.total))), ("avg", .optional (s.average?.map (.word ·.text)))]

def Event.shape (e : Event) : Shape := .record "Event" [("count", .nat e.count)]

namespace Stats

def shape (s : Stats) : Shape :=
  let size (n : SizeName) := (n.text, (s.size n).shape)
  let event (n : EventName) := (n.text, (s.event n).shape)
  .record "Stats"
    [size .readCasFailures, event .readRejected, size .writeCasFailures, size .writeWaitYields,
      event .backoffSpin, event .backoffYield, event .backoffSleep,
      size .queueEmptyPolls, event .queueInterrupted, event .queueTimeout]

/-- A label and its value, both at the right end of their field. -/
def labelled (width : Nat) (label value : String) : String := flushRight width label ++ ": " ++ value

def count (width n : Nat) : String := flushRight width (toString n)

/-- `n / d` to four places. -/
def share (n d : Nat) : String := (Ratio.of n d).places 4

def readLine (s : Stats) : String :=
  let reads := s.readCasFailures.count
  labelled 12 "reads" (count 12 reads) ++ " " ++
    labelled 12 "reject rate" (share s.readRejected.count reads) ++ " " ++
    labelled 13 "cas fail avg" (share s.readCasFailures.total reads)

def backoffLine (s : Stats) : String :=
  labelled 12 "backoff spin" (count 12 s.backoffSpin.count) ++ " " ++
    labelled 12 "yield" (count 12 s.backoffYield.count) ++ " " ++
    labelled 13 "sleep" (count 6 s.backoffSleep.count)

def waitLine (s : Stats) : String :=
  let waits := s.queueEmptyPolls.count
  labelled 12 "queue waits" (count 12 waits) ++ " " ++
    labelled 12 "poll avg" (share s.queueEmptyPolls.total waits) ++ " " ++
    labelled 13 "interrupted" (count 6 s.queueInterrupted.count)

def summary (s : Stats) : String :=
  String.join ([s.shape.block, s.readLine, s.backoffLine, s.waitLine].map (· ++ "\n"))

/-- What is shown in place of a summary where nothing is counted. -/
def disabledSummary : String := "`busylock/stats` feature is not enabled\n"

end Stats

end BusyWait
