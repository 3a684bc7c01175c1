/-
  BusyWait.Fault — the ways an operation breaks off.

  A fault is raised after the access that reveals it: what the operation has changed by
  then stays changed.
-/

namespace BusyWait

inductive Fault where
  /-- A reader left a word that counted none. -/
  | noReaders
  /-- A writer left a word that was not its own. -/
  | notBlocked
  /-- The word counts as many readers as it can. -/
  | tooManyReaders
  /-- A reader left a counter at zero. -/
  | notAcquired
  /-- A 32-bit sum does not fit. -/
  | sumOverflow
  /-- A remainder by zero, such as a slot of a table without slots. -/
  | zeroDivisor
  /-- The least number divided by minus one. -/
  | remainderOverflow
  | outOfBounds (len index : Nat)
  /-- A predicate broke off on the element it was shown. -/
  | predicate
  /-- An element was reached for where there is none. -/
  | absent
  deriving DecidableEq, Repr

def Fault.message : Fault → String
  | .noReaders => "attempt to release a `LockState` without readers"
  | .notBlocked => "attempt to unblock a `LockState` that was not blocked"
  | .tooManyReaders => "overflowed the maximum number of readers on a `LockState`"
  | .notAcquired => "attempt to release an unacquired `IncrementBusyLock`"
  | .sumOverflow => "attempt to add with overflow"
  | .zeroDivisor => "attempt to calculate the remainder with a divisor of zero"
  | .remainderOverflow => "attempt to calculate the remainder with overflow"
  | .outOfBounds len index =>
    "index out of bounds: the len is " ++ toString len ++ " but the index is " ++ toString index
  | .predicate => "predicate panicked"
  | .absent => "the element is absent"

end BusyWait
