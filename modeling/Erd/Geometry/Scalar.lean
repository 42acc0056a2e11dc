import Erd.Decimal.Order

/-!
# Numbers that coordinates are

The geometry of a diagram is written once for every type of numbers with the operations below.  It runs
on floating-point numbers, where an operand that is no number is passed over by `smaller` and `larger`,
and it can be read on exact ones, where all of them are finite.
-/

namespace Erd

class Scalar (α : Type) extends Add α, Sub α, Mul α, Div α, Neg α where
  ofNat : Nat → α
  less : α → α → Bool
  /-- Equality of values; a NaN is not the same as itself. -/
  same : α → α → Bool
  finite : α → Bool
  /-- The order that values are sorted in, also those that are no numbers. -/
  sortLe : α → α → Bool
  sortLe_trans (a b c : α) : sortLe a b = true → sortLe b c = true → sortLe a c = true
  sortLe_total (a b : α) : (sortLe a b || sortLe b a) = true
  sortLe_of_less (a b : α) : less a b = true → sortLe b a = false

namespace Scalar

variable {α : Type} [Scalar α]

/-- What is sorted in front of a value is not greater. -/
theorem less_eq_false {a b : α} (h : sortLe a b = true) : less b a = false := by
  cases hless : less b a with
  | false => rfl
  | true => exact absurd h (Bool.eq_false_iff.1 (sortLe_of_less b a hless))

def zero : α := ofNat 0

def two : α := ofNat 2

def half (a : α) : α := a / two

/-- The lesser of two values, the first if they are equal. -/
def smaller (a b : α) : α := if less b a then b else if same a a then a else b

/-- The greater of two values, the first if they are equal. -/
def larger (a b : α) : α := if less a b then b else if same a a then a else b

def magnitude (a : α) : α := if less a zero then -a else a

/-- The distance below which two coordinates count as one: `2 ^ -52`. -/
def epsilon : α := ofNat 1 / ofNat (Nat.pow 2 52)

/-- The mean of natural numbers: their sum, added up from the first, by their count. -/
def mean (ns : List Nat) : α := ns.foldl (fun sum n => sum + ofNat n) zero / ofNat ns.length

/-- A finite value that is not negative, taken from any value. -/
def clamp (a : α) : α := if finite a && less zero a then a else zero

end Scalar

instance : Scalar Float where
  ofNat := Float.ofNat
  less a b := a < b
  same a b := a == b
  finite := Float.isFinite
  sortLe a b := (Binary64.ofFloat a).ordinal ≤ (Binary64.ofFloat b).ordinal
  sortLe_trans _ _ _ h h' := decide_eq_true (Int.le_trans (of_decide_eq_true h) (of_decide_eq_true h'))
  sortLe_total a b := by
    simpa using Int.le_total (Binary64.ofFloat a).ordinal (Binary64.ofFloat b).ordinal
  sortLe_of_less _ _ h := decide_eq_false (Int.not_le.2 (Binary64.ordinal_lt (of_decide_eq_true h)))

/-- The first of these fractions is the greater one, but they round to one number. -/
example : Scalar.sortLe (24573378561 / 187480 : Float) (24573509633 / 187481) = true := by decide +kernel

/-- Numbers that are written and read in 64 bits. -/
class Coordinate (α : Type) where
  toBinary : α → Binary64
  ofBinary : Binary64 → α

instance : Coordinate Float := ⟨Binary64.ofFloat, Binary64.toFloat⟩

instance : Coordinate Binary64 := ⟨id, id⟩

end Erd
