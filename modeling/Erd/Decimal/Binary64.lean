/-!
# Binary floating-point numbers, held by their 64 bits

A number is its bit pattern, so equality of values of this type is equality of patterns, and every
pattern is a number, an infinity or a NaN.  A finite number is `± mantissa · 2 ^ exponent`:

    ofRatio neg num den      the number nearest to ± num / den, a tie going to the even mantissa
    ofDecimal neg d e        the number nearest to ± d · 10 ^ e
    ofInt n                  the number nearest to n

`==` compares by value: the two zeros are equal and a NaN differs from everything.
-/

namespace Erd

/-- The 64 bits of a floating-point number. -/
structure Binary64 where
  bits : UInt64
deriving DecidableEq, Repr, Inhabited

namespace Binary64

/-! ## Fields -/

/-- The sign bit. -/
def isNegative (x : Binary64) : Bool := Nat.pow 2 63 ≤ x.bits.toNat

/-- The eleven bits of the exponent. -/
def biased (x : Binary64) : Nat := x.bits.toNat / Nat.pow 2 52 % Nat.pow 2 11

/-- The lower 52 bits. -/
def fraction (x : Binary64) : Nat := x.bits.toNat % Nat.pow 2 52

def isFinite (x : Binary64) : Bool := x.biased ≠ 2047

def isNaN (x : Binary64) : Bool := x.biased = 2047 ∧ x.fraction ≠ 0

def isZero (x : Binary64) : Bool := x.biased = 0 ∧ x.fraction = 0

/-- The integer factor of a finite number: the leading one is implied unless the number is
subnormal. -/
def mantissa (x : Binary64) : Nat :=
  if x.biased = 0 then x.fraction else Nat.pow 2 52 + x.fraction

/-- The power of two that scales `mantissa`. -/
def exponent (x : Binary64) : Int :=
  (if x.biased = 0 then 1 else (x.biased : Int)) - 1075

/-! ## Construction -/

/-- Sign bit and the 63 bits below it. -/
def ofMagnitude (negative : Bool) (magnitude : Nat) : Binary64 :=
  ⟨UInt64.ofNat ((if negative then Nat.pow 2 63 else 0) + magnitude)⟩

/-- The pattern of an infinity without its sign. -/
def infinityMagnitude : Nat := 2047 * Nat.pow 2 52

def infinity (negative : Bool) : Binary64 := ofMagnitude negative infinityMagnitude

def nan : Binary64 := ofMagnitude false (infinityMagnitude + Nat.pow 2 51)

def zero (negative : Bool) : Binary64 := ofMagnitude negative 0

/-- The number with the other sign bit. -/
def neg (x : Binary64) : Binary64 := ⟨x.bits ^^^ 0x8000000000000000⟩

/-- `num / den` rounded to an integer, a half going to the even one. -/
def divRound (num den : Nat) : Nat :=
  let q := num / den
  let twice := 2 * (num % den)
  if twice < den then q else if den < twice then q + 1 else q + q % 2

/-- `num / den` in units of `2 ^ e`, as a quotient of naturals. -/
def scaled (num den : Nat) (e : Int) : Nat × Nat :=
  if e < 0 then (num * Nat.pow 2 e.natAbs, den) else (num, den * Nat.pow 2 e.natAbs)

/-- The exponent at which `num / den` has an integer part below `2 ^ 53`, the least such at or above
the least exponent of the format. -/
def unitExponent (num den : Nat) : Int :=
  let low : Int := (num.log2 : Int) - den.log2 - 53
  let (n, d) := scaled num den low
  max (-1074) (if n / d < Nat.pow 2 53 then low else low + 1)

/-- The number nearest to `num / den`, a tie going to the even mantissa.  A mantissa that rounds up to
`2 ^ 53` carries into the exponent field, and a pattern past the last finite one is an infinity. -/
def ofRatio (negative : Bool) (num den : Nat) : Binary64 :=
  if num = 0 then zero negative
  else
    let e := unitExponent num den
    let (n, d) := scaled num den e
    ofMagnitude negative (min infinityMagnitude ((e + 1074).toNat * Nat.pow 2 52 + divRound n d))

/-- The number nearest to `digits · 10 ^ e`.  Beyond the range of the format no power of ten is
computed. -/
def ofDecimal (negative : Bool) (digits : Nat) (e : Int) : Binary64 :=
  if digits = 0 then zero negative
  else
    let leading : Int := e + (Nat.toDigits 10 digits).length
    if 310 < leading then infinity negative
    else if leading < -330 then zero negative
    else if e < 0 then ofRatio negative digits (Nat.pow 10 e.natAbs)
    else ofRatio negative (digits * Nat.pow 10 e.natAbs) 1

def ofInt (n : Int) : Binary64 := ofRatio (n < 0) n.natAbs 1

/-! ## Comparison and conversion -/

/-- Equality of values. -/
def sameValue (x y : Binary64) : Bool :=
  !x.isNaN && !y.isNaN && (x.bits == y.bits || (x.isZero && y.isZero))

instance : BEq Binary64 := ⟨sameValue⟩

def toFloat (x : Binary64) : Float := Float.ofBits x.bits

def ofFloat (x : Float) : Binary64 := ⟨x.toBits⟩

end Binary64

end Erd
