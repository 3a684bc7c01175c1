import BusyWait.Text.Glyph

/-
  BusyWait.Text.Quoted — text between double quotes, as it is shown in a value.

  A quote and a backslash are escaped by a backslash, the usual four controls have a
  letter, and any other character without a glyph of its own is written by its number
  in hexadecimal. An apostrophe is not escaped.
-/

namespace BusyWait.Text

/-- The code point in lower case hexadecimal, without leading zeros. -/
def byNumber (c : Char) : String :=
  "\\u\x7b" ++ String.ofList (Nat.toDigits 16 c.toNat) ++ "\x7d"

def escape (c : Char) : String :=
  match c with
  | '\x00' => "\\0"
  | '\t' => "\\t"
  | '\n' => "\\n"
  | '\r' => "\\r"
  | '"' => "\\\""
  | '\\' => "\\\\"
  | c => if hasGlyph c then c.toString else byNumber c

def quote (s : String) : String := "\"" ++ String.join (s.toList.map escape) ++ "\""

end BusyWait.Text
