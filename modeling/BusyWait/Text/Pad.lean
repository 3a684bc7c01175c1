/-
  BusyWait.Text.Pad — text in a field of a given width.

  A precision cuts the text to that many characters; blanks then fill it to the width.
  Text centred over an odd number of blanks has the larger part on its right.
-/

namespace BusyWait.Text

inductive Align where
  | left
  | right
  | centre
  deriving DecidableEq, Repr

structure Field where
  width : Nat
  precision : Option Nat
  align : Align
  deriving DecidableEq, Repr

/-- A field that neither cuts nor fills. -/
def Field.free : Field := ⟨0, none, .left⟩

def blanks (n : Nat) : String := String.ofList (List.replicate n ' ')

/-- The first `n` characters, or all of them. -/
def cut (s : String) : Option Nat → String
  | none => s
  | some n => String.ofList (s.toList.take n)

def fill (s : String) (width : Nat) (align : Align) : String :=
  let gap := width - s.length
  match align with
  | .left => s ++ blanks gap
  | .right => blanks gap ++ s
  | .centre => blanks (gap / 2) ++ s ++ blanks (gap - gap / 2)

def Field.show (f : Field) (s : String) : String := fill (cut s f.precision) f.width f.align

/-- `s` at the right end of a field of `width` characters. -/
def flushRight (width : Nat) (s : String) : String := fill s width .right

end BusyWait.Text
