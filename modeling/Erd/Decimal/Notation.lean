import Erd.Decimal.Shortest

/-!
# Written forms of numbers

Two notations are in use.  Schema sources write numbers positionally, whatever their size.  JSON
documents keep a fraction and go over to an exponent outside `1e-5 ≤ |x| < 1e16`.  Both take the
shortest digits that read back.
-/

namespace Erd

namespace Decimal

def digitChars (n : Nat) : List Char := Nat.toDigits 10 n

/-- Exponent of the leading digit. -/
def leading (d : Decimal) : Int := d.exponent + ((digitChars d.digits).length : Int) - 1

/-- Integer digits and fraction digits. -/
def split (d : Decimal) : List Char × List Char :=
  let ds := digitChars d.digits
  if 0 ≤ d.exponent then (ds ++ List.replicate d.exponent.natAbs '0', [])
  else
    let places := d.exponent.natAbs
    if places < ds.length then (ds.take (ds.length - places), ds.drop (ds.length - places))
    else (['0'], List.replicate (places - ds.length) '0' ++ ds)

/-- All digits around a decimal point, with no point before an empty fraction. -/
def positional (d : Decimal) : List Char :=
  let (int, frac) := d.split
  if frac.isEmpty then int else int ++ '.' :: frac

/-- All digits around a decimal point, with at least one on either side. -/
def withFraction (d : Decimal) : List Char :=
  let (int, frac) := d.split
  int ++ '.' :: (if frac.isEmpty then ['0'] else frac)

/-- One digit before the point and a signed exponent. -/
def scientific (d : Decimal) : List Char :=
  let e := d.leading
  let mantissa := match digitChars d.digits with
    | [] => []
    | [c] => [c]
    | c :: more => c :: '.' :: more
  mantissa ++ 'e' :: (if e < 0 then '-' else '+') :: digitChars e.natAbs

end Decimal

namespace Binary64

def signed (x : Binary64) (magnitude : List Char) : String :=
  String.ofList (if x.isNegative then '-' :: magnitude else magnitude)

/-- The notation of schema sources: no exponent, and no point after an integral value. -/
def toSource (x : Binary64) : String :=
  if x.isNaN then "NaN"
  else if x.isFinite then x.signed (x.shortest .up).positional
  else x.signed ['i', 'n', 'f']

/-- The notation of JSON documents, for a finite number. -/
def toJsonText (x : Binary64) : String :=
  let d := x.shortest .even
  let e := d.leading
  x.signed (if d.digits = 0 ∨ (-5 ≤ e ∧ e < 16) then d.withFraction else d.scientific)

end Binary64

end Erd
