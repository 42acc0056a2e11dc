import Erd.Decimal.Binary64

/-!
# Scaling by powers of ten

A significand and a power of ten are put together in a few rounded steps: the significand becomes the nearest
number, which is multiplied or divided by the number nearest to the power.  The result may lie some numbers
beside the one nearest to the decimal, and often does when the significand has more than fifteen digits.

    x * y                   the number nearest to the product
    x / y                   the number nearest to the quotient
    ofScaled negative s e   ± s · 10 ^ e in these steps
-/

namespace Erd

namespace Binary64

/-- The magnitude of a finite number as a quotient of naturals. -/
def ratio (x : Binary64) : Nat × Nat := scaled x.mantissa 1 (-x.exponent)

/-- The product of two finite numbers, rounded. -/
def mul (x y : Binary64) : Binary64 :=
  let (a, b) := x.ratio
  let (c, d) := y.ratio
  ofRatio (x.isNegative != y.isNegative) (a * c) (b * d)

/-- The quotient of two finite numbers, rounded; the second is not zero. -/
def div (x y : Binary64) : Binary64 :=
  let (a, b) := x.ratio
  let (c, d) := y.ratio
  ofRatio (x.isNegative != y.isNegative) (a * d) (b * c)

instance : Mul Binary64 := ⟨mul⟩

instance : Div Binary64 := ⟨div⟩

/-- The greatest `n` for which `10 ^ n` is in the range of the format. -/
def greatestPower : Nat := 308

def powerOfTen (n : Nat) : Binary64 := ofRatio false (Nat.pow 10 n) 1

/-- A number times `10 ^ n`.  Past the greatest power only zero stays finite. -/
def timesPower (x : Binary64) (n : Nat) : Binary64 :=
  if n ≤ greatestPower then x * powerOfTen n
  else if x.isZero then x
  else infinity x.isNegative

/-- A number over `10 ^ n`.  Past the greatest power, it is divided by that one as often as needed. -/
def overPower (x : Binary64) (n : Nat) : Binary64 :=
  if n ≤ greatestPower then x / powerOfTen n
  else if x.isZero then x
  else (x / powerOfTen greatestPower).overPower (n - greatestPower)
termination_by n
decreasing_by simp only [greatestPower] at *; omega

/-- A significand times a power of ten, in rounded steps. -/
def ofScaled (negative : Bool) (significand : Nat) (e : Int) : Binary64 :=
  let x := ofRatio negative significand 1
  if e < 0 then x.overPower e.natAbs else x.timesPower e.natAbs

end Binary64

end Erd
