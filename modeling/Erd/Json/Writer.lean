import Erd.Json.Value
import Erd.Decimal.Notation
import Erd.Text.Ascii

/-!
# Writing JSON text

The compact form has no blanks.  The indented form puts each item and member on a line of its own,
two blanks further in than the line of its container; an empty container stays on one line.
-/

namespace Erd

namespace Json

def hexChar (n : Nat) : Char := if n < 10 then Char.ofNat (48 + n) else Char.ofNat (87 + n)

/-- A character inside a string: quotes, backslashes and control characters are escaped. -/
def escaped (c : Char) : List Char :=
  if c == doubleQuote || c == backslash then [backslash, c]
  else if 0x20 ≤ c.toNat then [c]
  else match c with
    | '\x08' => [backslash, 'b']
    | '\x0c' => [backslash, 'f']
    | '\n' => [backslash, 'n']
    | '\r' => [backslash, 'r']
    | '\t' => [backslash, 't']
    | c => [backslash, 'u', '0', '0', hexChar (c.toNat / 16), hexChar (c.toNat % 16)]

def quoted (s : String) : String :=
  String.ofList (doubleQuote :: s.toList.flatMap escaped ++ [doubleQuote])

/-- The break before a line at the given depth. -/
def lineBreak (indented : Bool) (depth : Nat) : String :=
  if indented then String.ofList ('\n' :: List.replicate (2 * depth) ' ') else ""

mutual

/-- The text of a value whose first line starts at the given depth. -/
def render (indented : Bool) (depth : Nat) : Json → String
  | .null => "null"
  | .bool b => if b then "true" else "false"
  | .int n => toString n
  | .float x => x.toJsonText
  | .str s => quoted s
  | .arr [] => "[]"
  | .arr (x :: xs) =>
    "[" ++ lineBreak indented (depth + 1) ++ render indented (depth + 1) x
      ++ renderItems indented (depth + 1) xs ++ lineBreak indented depth ++ "]"
  | .obj [] => "\x7b\x7d"
  | .obj ((k, x) :: ms) =>
    "\x7b" ++ lineBreak indented (depth + 1) ++ quoted k ++ (if indented then ": " else ":")
      ++ render indented (depth + 1) x ++ renderMembers indented (depth + 1) ms
      ++ lineBreak indented depth ++ "\x7d"

/-- Further items, each after a comma. -/
def renderItems (indented : Bool) (depth : Nat) : List Json → String
  | [] => ""
  | x :: xs => "," ++ lineBreak indented depth ++ render indented depth x ++ renderItems indented depth xs

/-- Further members, each after a comma. -/
def renderMembers (indented : Bool) (depth : Nat) : List (String × Json) → String
  | [] => ""
  | (k, x) :: ms =>
    "," ++ lineBreak indented depth ++ quoted k ++ (if indented then ": " else ":")
      ++ render indented depth x ++ renderMembers indented depth ms

end

/-- One line without blanks. -/
def compact (x : Json) : String := render false 0 x

/-- One item or member a line. -/
def indented (x : Json) : String := render true 0 x

end Json

end Erd
