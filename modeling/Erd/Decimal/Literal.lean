import Erd.Decimal.Binary64
import Erd.Text.Ascii

/-!
# Reading numbers

A number text is an optional sign and either decimal digits, with at most one point, at least one
digit and an optional exponent, or one of the words for an infinity or a NaN in any letter case.
Its value is the nearest number of 64 bits.  A size is a natural number below `2 ^ 32`.
-/

namespace Erd

/-- The value of decimal digits. -/
def natOfDigits (ds : List Char) : Nat := ds.foldl (fun n c => 10 * n + (c.toNat - 48)) 0

/-- The digits up to the first other character, and the rest. -/
def splitDigits (cs : List Char) : List Char × List Char := (cs.takeWhile Char.isDigit, cs.dropWhile Char.isDigit)

/-- Optional sign. -/
def splitSign : List Char → Bool × List Char
  | '-' :: r => (true, r)
  | '+' :: r => (false, r)
  | r => (false, r)

/-- A whole list of at least one digit. -/
def digits? (cs : List Char) : Option Nat :=
  if cs.isEmpty || !cs.all Char.isDigit then none else some (natOfDigits cs)

/-- The part after the exponent mark. -/
def signedDigits? (cs : List Char) : Option Int :=
  let (negative, ds) := splitSign cs
  match digits? ds with
  | none => none
  | some n => some (if negative then -(n : Int) else n)

/-- Digits, point and exponent as `digits · 10 ^ exponent`. -/
def decimal? (cs : List Char) : Option (Nat × Int) :=
  let (int, r) := splitDigits cs
  let (frac, r) := match r with
    | '.' :: r => splitDigits r
    | r => ([], r)
  let e := match r with
    | [] => some 0
    | c :: r => if c == 'e' || c == 'E' then signedDigits? r else none
  match e with
  | none => none
  | some e => if int.isEmpty && frac.isEmpty then none else some (natOfDigits (int ++ frac), e - frac.length)

namespace Binary64

/-- The number that a text denotes. -/
def ofText? (s : String) : Option Binary64 :=
  let (negative, r) := splitSign s.toList
  let word := asciiLower (String.ofList r)
  if word == "inf" || word == "infinity" then some (infinity negative)
  else if word == "nan" then some (if negative then nan.neg else nan)
  else match decimal? r with
    | none => none
    | some (digits, e) => some (ofDecimal negative digits e)

end Binary64

/-- The size that a text denotes: digits after an optional plus sign. -/
def sizeOfText? (s : String) : Option UInt32 :=
  let ds := match s.toList with
    | '+' :: r => r
    | r => r
  match digits? ds with
  | none => none
  | some n => if n < UInt32.size then some (UInt32.ofNat n) else none

end Erd
