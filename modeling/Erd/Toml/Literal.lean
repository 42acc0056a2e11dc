import Erd.Decimal.Literal
import Erd.Toml.Value

/-!
# Strings, numbers and dates of TOML

A string is on one line or on several, with escapes or without.  Numbers may have underscores between
digits, dates and times are checked against the calendar, and integers have 64 bits.
-/

namespace Erd.Toml

def isSpace (c : Char) : Bool := c == ' ' || c == '\t'

/-- A character that may stand in a string or a comment as it is. -/
def isPlain (c : Char) : Bool := c == '\t' || (0x20 ≤ c.toNat && c.toNat ≠ 0x7f)

/-! ## Strings -/

/-- The character of a code that is a character's. -/
def charOfCode? (n : Nat) : Option Char :=
  if n < 0xd800 || (0xe000 ≤ n && n < 0x110000) then some (Char.ofNat n) else none

/-- The character of four or eight hexadecimal digits. -/
def charOfHex? (ds : List Char) : Option Char :=
  match ds.mapM hexDigit? with
  | none => none
  | some ns => charOfCode? (ns.foldl (fun n d => 16 * n + d) 0)

def escape? (c : Char) : Option Char :=
  if c == doubleQuote || c == backslash then some c
  else match c with
    | 'b' => some '\x08'
    | 't' => some '\t'
    | 'n' => some '\n'
    | 'f' => some '\x0c'
    | 'r' => some '\r'
    | _ => none

/-- A string on one line, up to its closing double quote. -/
def basicString (acc : List Char) : List Char → Option (String × List Char)
  | [] => none
  | '\x22' :: r => some (String.ofList acc.reverse, r)
  | '\x5c' :: 'u' :: a :: b :: c :: d :: r =>
    match charOfHex? [a, b, c, d] with
    | some x => basicString (x :: acc) r
    | none => none
  | '\x5c' :: 'U' :: a :: b :: c :: d :: e :: f :: g :: h :: r =>
    match charOfHex? [a, b, c, d, e, f, g, h] with
    | some x => basicString (x :: acc) r
    | none => none
  | '\x5c' :: c :: r =>
    match escape? c with
    | some x => basicString (x :: acc) r
    | none => none
  | c :: r => if isPlain c && c != backslash then basicString (c :: acc) r else none

/-- Up to two quotes in front of a closing delimiter belong to the string. -/
def extraQuotes (quote : Char) : List Char → List Char × List Char
  | a :: b :: r =>
    if a == quote && b == quote then ([a, b], r)
    else if a == quote then ([a], b :: r)
    else ([], a :: b :: r)
  | [a] => if a == quote then ([a], []) else ([], [a])
  | [] => ([], [])

def startsWithBreak : List Char → Bool
  | '\n' :: _ => true
  | '\r' :: '\n' :: _ => true
  | _ => false

/-- A string on several lines, up to its closing quotes.  A backslash at the end of a line drops the blanks
and line breaks behind it; `dropping` says that they are being dropped. -/
def basicLines (acc : List Char) (dropping : Bool) : List Char → Option (String × List Char)
  | [] => none
  | '\x22' :: '\x22' :: '\x22' :: r =>
    let (extra, rest) := extraQuotes doubleQuote r
    some (String.ofList (acc.reverse ++ extra), rest)
  | '\r' :: '\n' :: r => basicLines (if dropping then acc else '\n' :: acc) dropping r
  | '\n' :: r => basicLines (if dropping then acc else '\n' :: acc) dropping r
  | '\x5c' :: 'u' :: a :: b :: c :: d :: r =>
    match charOfHex? [a, b, c, d] with
    | some x => basicLines (x :: acc) false r
    | none => none
  | '\x5c' :: 'U' :: a :: b :: c :: d :: e :: f :: g :: h :: r =>
    match charOfHex? [a, b, c, d, e, f, g, h] with
    | some x => basicLines (x :: acc) false r
    | none => none
  | '\x5c' :: c :: r =>
    match escape? c with
    | some x => basicLines (x :: acc) false r
    | none =>
      if startsWithBreak ((c :: r).dropWhile isSpace) then basicLines acc true (c :: r) else none
  | c :: r =>
    if dropping && isSpace c then basicLines acc true r
    else if isPlain c && c != backslash then basicLines (c :: acc) false r
    else none

/-- A string without escapes on one line, up to its closing single quote. -/
def literalString (acc : List Char) : List Char → Option (String × List Char)
  | [] => none
  | c :: r =>
    if c == singleQuote then some (String.ofList acc.reverse, r)
    else if isPlain c then literalString (c :: acc) r
    else none

/-- A string without escapes on several lines, up to its closing quotes. -/
def literalLines (acc : List Char) : List Char → Option (String × List Char)
  | [] => none
  | '\x27' :: '\x27' :: '\x27' :: r =>
    let (extra, rest) := extraQuotes singleQuote r
    some (String.ofList (acc.reverse ++ extra), rest)
  | '\r' :: '\n' :: r => literalLines ('\n' :: acc) r
  | '\n' :: r => literalLines ('\n' :: acc) r
  | c :: r => if isPlain c then literalLines (c :: acc) r else none

/-- A line break right behind the opening quotes is no part of the string. -/
def dropFirstBreak : List Char → List Char
  | '\n' :: r => r
  | '\r' :: '\n' :: r => r
  | r => r

/-! ## Numbers -/

/-- Digits without the underscores between them. -/
def groupedDigits? (isDigit : Char → Bool) : List Char → Option (List Char)
  | [] => none
  | [c] => if isDigit c then some [c] else none
  | c :: '_' :: r => if isDigit c then (groupedDigits? isDigit r).map (c :: ·) else none
  | c :: r => if isDigit c then (groupedDigits? isDigit r).map (c :: ·) else none

/-- Digits of a number that is not padded with zeros. -/
def wholeDigits? (cs : List Char) : Option (List Char) :=
  match groupedDigits? Char.isDigit cs with
  | none => none
  | some ds => if ds.head? == some '0' && 1 < cs.length then none else some ds

def inInt64 (n : Int) : Option Value :=
  if Int64.minValue.toInt ≤ n ∧ n ≤ Int64.maxValue.toInt then some (.int n) else none

def ofBase? (base : Nat) (isDigit : Char → Bool) (cs : List Char) : Option Value :=
  match groupedDigits? isDigit cs with
  | none => none
  | some ds =>
    match ds.mapM hexDigit? with
    | none => none
    | some ns => inInt64 (ns.foldl (fun n d => base * n + d) 0 : Nat)

def integer? : List Char → Option Value
  | '0' :: 'x' :: r => ofBase? 16 (fun c => (hexDigit? c).isSome) r
  | '0' :: 'o' :: r => ofBase? 8 (fun c => '0' ≤ c && c ≤ '7') r
  | '0' :: 'b' :: r => ofBase? 2 (fun c => c == '0' || c == '1') r
  | cs =>
    let (negative, r) := splitSign cs
    match wholeDigits? r with
    | none => none
    | some ds => inInt64 (if negative then -(natOfDigits ds : Int) else natOfDigits ds)

/-- The digits behind an exponent mark. -/
def exponent? (cs : List Char) : Option Int :=
  let (negative, r) := splitSign cs
  (groupedDigits? Char.isDigit r).map fun ds =>
    if negative then -(natOfDigits ds : Int) else natOfDigits ds

/-- A number with a fraction or an exponent.  One that is too great is refused, one that is too small is
an infinity. -/
def decimal? (cs : List Char) : Option Value :=
  let (negative, r) := splitSign cs
  let isMark (c : Char) := c == 'e' || c == 'E'
  let mantissa := r.takeWhile fun c => !isMark c
  let power := (r.dropWhile fun c => !isMark c)
  let whole := mantissa.takeWhile (· != '.')
  let point := mantissa.dropWhile (· != '.')
  if power.isEmpty && point.isEmpty then none
  else
    let frac := if point.isEmpty then some [] else groupedDigits? Char.isDigit point.tail
    let e := if power.isEmpty then some 0 else exponent? power.tail
    match wholeDigits? whole, frac, e with
    | some ds, some fs, some e =>
      let x := Binary64.ofDecimal negative (natOfDigits (ds ++ fs)) (e - fs.length)
      if x.isFinite || negative then some (.float x) else none
    | _, _, _ => none

/-- An infinity or a NaN. -/
def special? (cs : List Char) : Option Value :=
  let (negative, r) := splitSign cs
  match r with
  | ['i', 'n', 'f'] => some (.float (.infinity negative))
  | ['n', 'a', 'n'] => some (.float (if negative then Binary64.nan.neg else .nan))
  | _ => none

/-! ## Dates -/

def twoDigits? (a b : Char) : Option Nat :=
  if a.isDigit && b.isDigit then some (natOfDigits [a, b]) else none

def daysIn (year month : Nat) : Nat :=
  if month = 2 then
    (if year % 4 = 0 ∧ (year % 100 ≠ 0 ∨ year % 400 = 0) then 29 else 28)
  else if month = 4 ∨ month = 6 ∨ month = 9 ∨ month = 11 then 30
  else 31

/-- The part behind a calendar date. -/
def afterDate? : List Char → Option (List Char)
  | a :: b :: c :: d :: '-' :: e :: f :: '-' :: g :: h :: r =>
    match twoDigits? a b, twoDigits? c d, twoDigits? e f, twoDigits? g h with
    | some y, some z, some month, some day =>
      if 1 ≤ month ∧ month ≤ 12 ∧ 1 ≤ day ∧ day ≤ daysIn (100 * y + z) month then some r else none
    | _, _, _, _ => none
  | _ => none

/-- The part behind a fraction of a second, if there is one. -/
def afterFraction? : List Char → Option (List Char)
  | '.' :: r => if (r.takeWhile Char.isDigit).isEmpty then none else some (r.dropWhile Char.isDigit)
  | r => some r

/-- The part behind a time of day. -/
def afterTime? : List Char → Option (List Char)
  | a :: b :: ':' :: c :: d :: ':' :: e :: f :: r =>
    match twoDigits? a b, twoDigits? c d, twoDigits? e f with
    | some hour, some minute, some second =>
      if hour ≤ 23 ∧ minute ≤ 59 ∧ second ≤ 60 then afterFraction? r else none
    | _, _, _ => none
  | _ => none

/-- Whether a text is an offset from universal time, or empty. -/
def isOffset : List Char → Bool
  | [] => true
  | ['Z'] => true
  | ['z'] => true
  | [s, a, b, ':', c, d] =>
    (s == '+' || s == '-') &&
      (match twoDigits? a b, twoDigits? c d with
        | some hour, some minute => hour ≤ 23 && minute ≤ 59
        | _, _ => false)
  | _ => false

def isDateTime (cs : List Char) : Bool :=
  match afterDate? cs with
  | some [] => true
  | some (c :: r) =>
    (c == 'T' || c == 't' || c == ' ') &&
      (match afterTime? r with
        | some r => isOffset r
        | none => false)
  | none => afterTime? cs == some []

def dateTime? (cs : List Char) : Option Value :=
  if isDateTime cs then some (.date (String.ofList cs)) else none

/-! ## Bare values -/

def isBareValueChar (c : Char) : Bool :=
  c.isAlphanum || c == '_' || c == '+' || c == '-' || c == '.' || c == ':'

/-- The characters of a value without quotes or brackets.  A date and a time may have one blank between
them. -/
def splitBareValue (cs : List Char) : List Char × List Char :=
  let w := cs.takeWhile isBareValueChar
  match cs.dropWhile isBareValueChar with
  | ' ' :: a :: b :: ':' :: r =>
    if afterDate? w == some [] && a.isDigit && b.isDigit then
      let rest := a :: b :: ':' :: r
      (w ++ ' ' :: rest.takeWhile isBareValueChar, rest.dropWhile isBareValueChar)
    else (w, ' ' :: a :: b :: ':' :: r)
  | r => (w, r)

def bareValue? (cs : List Char) : Option Value :=
  if cs == ['t', 'r', 'u', 'e'] then some (.bool true)
  else if cs == ['f', 'a', 'l', 's', 'e'] then some (.bool false)
  else match integer? cs with
    | some x => some x
    | none =>
      match decimal? cs with
      | some x => some x
      | none =>
        match special? cs with
        | some x => some x
        | none => dateTime? cs

end Erd.Toml
