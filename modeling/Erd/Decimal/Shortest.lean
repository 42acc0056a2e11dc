import Erd.Decimal.Binary64

/-!
# The fewest decimal digits that read back

Among all decimals `d · 10 ^ k` that round to a given binary number, `shortest` takes one with the
fewest digits, and of those the nearest to the number.  The decimals that round to the number form
an interval; a grid `10 ^ k` meets it exactly if one of the two grid points next to the number does,
so the coarsest grid with a hit is found by going down one power of ten at a time.
-/

namespace Erd

/-- The value `digits · 10 ^ exponent`. -/
structure Decimal where
  digits : Nat
  exponent : Int
deriving DecidableEq, Repr

/-- Which of two equally near decimals is taken. -/
inductive Tie where
  | even
  | up
deriving DecidableEq, Repr

namespace Binary64

/-! ## The interval of a number

Distances are counted in quarters of the unit `2 ^ exponent`, in which the number is `4 · mantissa`
and the bounds of the interval are integers. -/

/-- Four times the mantissa. -/
def quarters (x : Binary64) : Nat := 4 * x.mantissa

/-- The lower bound, half way to the number below.  Below a power of two the numbers are twice as
dense. -/
def lowQuarters (x : Binary64) : Nat :=
  if x.fraction = 0 ∧ 1 < x.biased then x.quarters - 1 else x.quarters - 2

/-- The upper bound, half way to the number above. -/
def highQuarters (x : Binary64) : Nat := x.quarters + 2

/-- `digits · 10 ^ k` and one quarter unit over a common denominator. -/
def commonUnits (x : Binary64) (k : Int) : Nat × Nat :=
  let q := x.exponent - 2
  ((if 0 ≤ k then Nat.pow 10 k.natAbs else 1) * (if q < 0 then Nat.pow 2 q.natAbs else 1),
    (if 0 ≤ q then Nat.pow 2 q.natAbs else 1) * (if k < 0 then Nat.pow 10 k.natAbs else 1))

/-- Whether `digits · 10 ^ k` rounds to the number, whose interval holds its own bounds only when
the mantissa is even. -/
def readsBack (x : Binary64) (digits : Nat) (k : Int) : Bool :=
  let (ten, quarter) := x.commonUnits k
  let value := digits * ten
  let low := x.lowQuarters * quarter
  let high := x.highQuarters * quarter
  if x.mantissa % 2 = 0 then low ≤ value && value ≤ high else low < value && value < high

/-! ## Search -/

/-- The point of the grid `10 ^ k` next to the number that reads back, the nearer of two. -/
def onGrid? (tie : Tie) (x : Binary64) (k : Int) : Option Nat :=
  let (ten, quarter) := x.commonUnits k
  let value := x.quarters * quarter
  let below := value / ten
  let rest := 2 * (value % ten)
  let belowHit := 0 < below && x.readsBack below k
  let aboveHit := x.readsBack (below + 1) k
  if belowHit && aboveHit then
    if rest < ten then some below
    else if ten < rest then some (below + 1)
    else match tie with
      | .up => some (below + 1)
      | .even => some (below + below % 2)
  else if belowHit then some below
  else if aboveHit then some (below + 1)
  else none

/-- The first grid with a hit among `10 ^ k`, `10 ^ (k - 1)`, …. -/
def coarsest? (tie : Tie) (x : Binary64) : Nat → Int → Option Decimal
  | 0, _ => none
  | n + 1, k =>
    match x.onGrid? tie k with
    | some d => some ⟨d, k⟩
    | none => x.coarsest? tie n (k - 1)

/-- A power of ten above the number: `2 ^ b ≤ 10 ^ (⌊b · 0.30103⌋ + 1)`. -/
def topExponent (x : Binary64) : Int :=
  ((x.mantissa.log2 + 1 : Nat) + x.exponent) * 30103 / 100000 + 1

/-- A grid fine enough to hold the number itself. -/
def exactExponent (x : Binary64) : Int := min 0 x.exponent

/-- The exact value of a finite number as a decimal. -/
def exactDecimal (x : Binary64) : Decimal :=
  if x.exponent < 0 then ⟨x.mantissa * Nat.pow 5 x.exponent.natAbs, x.exponent⟩
  else ⟨x.mantissa * Nat.pow 2 x.exponent.natAbs, 0⟩

/-- The shortest decimal that reads back to the magnitude of a finite number. -/
def shortest (tie : Tie) (x : Binary64) : Decimal :=
  if x.mantissa = 0 then ⟨0, 0⟩
  else
    let top := x.topExponent
    (x.coarsest? tie ((top - x.exactExponent).toNat + 1) top).getD x.exactDecimal

end Binary64

end Erd
