import BusyWait.Text.Quoted

/-
  BusyWait.Text.Shape — what a value looks like, before it is written.

  A shape is written on one line (`line`), or opened up (`block`) with each part on a
  line of its own, indented by four blanks and ended by a comma.
-/

namespace BusyWait.Text

inductive Shape where
  | word (s : String)
  /-- A name and named parts in braces. -/
  | record (name : String) (parts : List (String × Shape))
  /-- A name and unnamed parts in round brackets. -/
  | wrap (name : String) (parts : List Shape)
  /-- Parts in square brackets. -/
  | row (parts : List Shape)

namespace Shape

def nat (n : Nat) : Shape := .word (toString n)

def bool (b : Bool) : Shape := .word (toString b)

def quoted (s : String) : Shape := .word (quote s)

/-- A value that may be missing. -/
def optional : Option Shape → Shape
  | none => .word "None"
  | some s => .wrap "Some" [s]

mutual

def line : Shape → String
  | .word s => s
  | .record name [] => name
  | .record name (p :: ps) => name ++ " \x7b " ++ fieldLine p ++ fieldsLine ps ++ " \x7d"
  | .wrap name [] => name
  | .wrap name (p :: ps) => name ++ "(" ++ p.line ++ restLine ps ++ ")"
  | .row [] => "[]"
  | .row (p :: ps) => "[" ++ p.line ++ restLine ps ++ "]"

def fieldLine : String × Shape → String
  | (label, s) => label ++ ": " ++ s.line

def fieldsLine : List (String × Shape) → String
  | [] => ""
  | p :: ps => ", " ++ fieldLine p ++ fieldsLine ps

def restLine : List Shape → String
  | [] => ""
  | p :: ps => ", " ++ p.line ++ restLine ps

end

def indent (depth : Nat) : String := String.ofList (List.replicate (4 * depth) ' ')

mutual

/-- The shape opened up, its closing bracket under `depth` indents. -/
def blockAt (depth : Nat) : Shape → String
  | .word s => s
  | .record name [] => name
  | .record name (p :: ps) => name ++ " \x7b\n" ++ fieldsBlock (depth + 1) (p :: ps) ++ indent depth ++ "\x7d"
  | .wrap name [] => name
  | .wrap name (p :: ps) => name ++ "(\n" ++ partsBlock (depth + 1) (p :: ps) ++ indent depth ++ ")"
  | .row [] => "[]"
  | .row (p :: ps) => "[\n" ++ partsBlock (depth + 1) (p :: ps) ++ indent depth ++ "]"

def fieldBlock (depth : Nat) : String × Shape → String
  | (label, s) => indent depth ++ label ++ ": " ++ s.blockAt depth ++ ",\n"

def fieldsBlock (depth : Nat) : List (String × Shape) → String
  | [] => ""
  | p :: ps => fieldBlock depth p ++ fieldsBlock depth ps

def partsBlock (depth : Nat) : List Shape → String
  | [] => ""
  | p :: ps => indent depth ++ p.blockAt depth ++ ",\n" ++ partsBlock depth ps

end

def block (s : Shape) : String := s.blockAt 0

/-- Opened up if `alt`, else on one line. -/
def text (alt : Bool) (s : Shape) : String := if alt then s.block else s.line

end Shape

end BusyWait.Text
