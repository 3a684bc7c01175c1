import BusyWait.Text.Shape

/-
  BusyWait.Queue.Error — what a queue answers where it has no element to give.
-/

namespace BusyWait

inductive QueueError where
  | interrupted
  | empty
  | unsupported (op : String)
  deriving DecidableEq, Repr

namespace QueueError

def message : QueueError → String
  | .interrupted => "waiting on the queue was interrupted"
  | .empty => "the queue is empty"
  | .unsupported op => "`" ++ op ++ "` is not supported by a spinning queue"

def shape : QueueError → Text.Shape
  | .interrupted => .word "Interrupted"
  | .empty => .word "Empty"
  | .unsupported op => .wrap "Unsupported" [.quoted op]

end QueueError

end BusyWait
