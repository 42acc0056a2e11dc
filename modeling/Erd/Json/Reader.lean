import Erd.Json.Value
import Erd.Decimal.Literal
import Erd.Decimal.Scaling

/-!
# Reading JSON text

`Json.parse?` reads one value with blanks around it and refuses everything else.  The nesting of
values is followed with a budget of one step per character, which no text can use up.

A number that is no integer of 64 bits is read in rounded steps from a significand and a power of ten, so
the shortest digits of a number need not read back to it.
-/

namespace Erd

namespace Json

/-! ## Strings -/

/-- The value of four hexadecimal digits. -/
def hexUnit? (a b c d : Char) : Option Nat :=
  match hexDigit? a, hexDigit? b, hexDigit? c, hexDigit? d with
  | some a, some b, some c, some d => some (((a * 16 + b) * 16 + c) * 16 + d)
  | _, _, _, _ => none

/-- The character that a one-letter escape stands for. -/
def escape? (c : Char) : Option Char :=
  if c == doubleQuote || c == backslash || c == '/' then some c
  else match c with
    | 'b' => some '\x08'
    | 'f' => some '\x0c'
    | 'n' => some '\n'
    | 'r' => some '\r'
    | 't' => some '\t'
    | _ => none

def isHighSurrogate (u : Nat) : Bool := 0xd800 ≤ u && u < 0xdc00

def isLowSurrogate (u : Nat) : Bool := 0xdc00 ≤ u && u < 0xe000

/-- The characters up to the closing quote, in reverse before `acc`, and the rest.  Two escaped
surrogates stand for one character, one alone for none. -/
def stringBody (acc : List Char) : List Char → Option (String × List Char)
  | [] => none
  | '\x22' :: r => some (String.ofList acc.reverse, r)
  | '\x5c' :: 'u' :: a :: b :: c :: d :: '\x5c' :: 'u' :: e :: f :: g :: h :: r =>
    match hexUnit? a b c d with
    | none => none
    | some u =>
      if isHighSurrogate u then
        match hexUnit? e f g h with
        | none => none
        | some v =>
          if isLowSurrogate v then
            stringBody (Char.ofNat (0x10000 + (u - 0xd800) * 0x400 + (v - 0xdc00)) :: acc) r
          else none
      else if isLowSurrogate u then none
      else stringBody (Char.ofNat u :: acc) ('\x5c' :: 'u' :: e :: f :: g :: h :: r)
  | '\x5c' :: 'u' :: a :: b :: c :: d :: r =>
    match hexUnit? a b c d with
    | none => none
    | some u =>
      if isHighSurrogate u || isLowSurrogate u then none else stringBody (Char.ofNat u :: acc) r
  | '\x5c' :: c :: r =>
    match escape? c with
    | none => none
    | some c => stringBody (c :: acc) r
  | c :: r => if c.toNat < 0x20 || c == backslash then none else stringBody (c :: acc) r

/-! ## Numbers -/

/-- Digits appended to a significand of 64 bits, up to the first one for which it has no room, and the
digits from there on. -/
def appendDigits (significand : Nat) : List Char → Nat × List Char
  | [] => (significand, [])
  | c :: r =>
    let next := 10 * significand + (c.toNat - 48)
    if next < UInt64.size then appendDigits next r else (significand, c :: r)

/-- A number of integer digits, fraction digits and an exponent.  Digits that find no room in the significand
count as zeros before the point, and are dropped behind it. -/
def ofParts (negative : Bool) (whole frac : List Char) (e : Int) : Json :=
  let (significand, zeros) := appendDigits 0 whole
  let (significand, dropped) := appendDigits significand frac
  .float (.ofScaled negative significand (zeros.length - (frac.length - dropped.length : Nat) + e))

/-- An integer, if 64 bits hold it.  Minus zero is no integer. -/
def ofInteger (negative : Bool) (whole : List Char) : Json :=
  let n := natOfDigits whole
  if negative && n ≠ 0 && n ≤ Nat.pow 2 63 then .int (-(n : Int))
  else if !negative && n < UInt64.size then .int n
  else ofParts negative whole [] 0

/-- At least one digit, and the rest. -/
def someDigits? (cs : List Char) : Option (List Char × List Char) :=
  let (ds, r) := splitDigits cs
  if ds.isEmpty then none else some (ds, r)

/-- The exponent part, if there is one. -/
def exponentPart? : List Char → Option (Option Int × List Char)
  | c :: r =>
    if c == 'e' || c == 'E' then
      let (negative, r) := splitSign r
      match someDigits? r with
      | none => none
      | some (ds, r) =>
        let n : Int := natOfDigits ds
        some (some (if negative then -n else n), r)
    else some (none, c :: r)
  | [] => some (none, [])

/-- The digits after a point, if there is one. -/
def fractionPart? : List Char → Option (Option (List Char) × List Char)
  | '.' :: r => (someDigits? r).map fun (ds, r) => (some ds, r)
  | r => some (none, r)

/-- A number whose sign has been read.  A leading zero stands alone. -/
def numeral? (negative : Bool) (cs : List Char) : Option (Json × List Char) :=
  match someDigits? cs with
  | none => none
  | some (whole, r) =>
    if whole.head? == some '0' && 1 < whole.length then none
    else match fractionPart? r with
      | none => none
      | some (frac, r) =>
        match exponentPart? r with
        | none => none
        | some (e, r) =>
          match frac, e with
          | none, none => some (ofInteger negative whole, r)
          | _, _ => some (ofParts negative whole (frac.getD []) (e.getD 0), r)

/-! ## Values -/

def isBlank (c : Char) : Bool := c == ' ' || c == '\n' || c == '\t' || c == '\r'

def skipBlanks (cs : List Char) : List Char := cs.dropWhile isBlank

mutual

/-- One value after blanks. -/
def value? : Nat → List Char → Option (Json × List Char)
  | 0, _ => none
  | n + 1, cs =>
    match skipBlanks cs with
    | 'n' :: 'u' :: 'l' :: 'l' :: r => some (.null, r)
    | 't' :: 'r' :: 'u' :: 'e' :: r => some (.bool true, r)
    | 'f' :: 'a' :: 'l' :: 's' :: 'e' :: r => some (.bool false, r)
    | '\x22' :: r => (stringBody [] r).map fun (s, r) => (.str s, r)
    | '[' :: r =>
      match skipBlanks r with
      | ']' :: r => some (.arr [], r)
      | r => (items? n r).map fun (xs, r) => (.arr xs, r)
    | '\x7b' :: r =>
      match skipBlanks r with
      | '\x7d' :: r => some (.obj [], r)
      | r => (members? n r).map fun (ms, r) => (.obj ms, r)
    | '-' :: r => numeral? true r
    | r => numeral? false r

/-- Values up to the closing bracket. -/
def items? : Nat → List Char → Option (List Json × List Char)
  | 0, _ => none
  | n + 1, cs =>
    match value? n cs with
    | none => none
    | some (x, r) =>
      match skipBlanks r with
      | ',' :: r => (items? n r).map fun (xs, r) => (x :: xs, r)
      | ']' :: r => some ([x], r)
      | _ => none

/-- Members up to the closing brace. -/
def members? : Nat → List Char → Option (List (String × Json) × List Char)
  | 0, _ => none
  | n + 1, cs =>
    match skipBlanks cs with
    | '\x22' :: r =>
      match stringBody [] r with
      | none => none
      | some (k, r) =>
        match skipBlanks r with
        | ':' :: r =>
          match value? n r with
          | none => none
          | some (x, r) =>
            match skipBlanks r with
            | ',' :: r => (members? n r).map fun (ms, r) => ((k, x) :: ms, r)
            | '\x7d' :: r => some ([(k, x)], r)
            | _ => none
        | _ => none
    | _ => none

end

/-- The value that a whole text denotes. -/
def parse? (text : String) : Option Json :=
  let cs := text.toList
  match value? (cs.length + 1) cs with
  | none => none
  | some (x, r) => if (skipBlanks r).isEmpty then some x else none

end Json

end Erd
