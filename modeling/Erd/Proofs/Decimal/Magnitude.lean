import Mathlib.Algebra.Order.Field.Rat
import Erd.Decimal.Literal
import Erd.Decimal.Notation

/-!
# Sign and magnitude

A pattern of 64 bits is a sign and a magnitude below `2 ^ 63`; every field but the sign is a field of the
magnitude.

    ofMagnitude x.isNegative x.magnitude = x                                 (ofMagnitude_magnitude)
    (ofMagnitude b m).neg = ofMagnitude (!b) m                               (neg_ofMagnitude)
    ofText? s = some x → x.isNaN = false      for `s` with a digit in front  (isNaN_ofText)
-/

namespace Erd.Binary64

/-! ## Fields of a magnitude -/

/-- The 63 bits below the sign. -/
def magnitude (x : Binary64) : Nat := x.bits.toNat % 2 ^ 63

theorem magnitude_lt (x : Binary64) : x.magnitude < 2 ^ 63 := Nat.mod_lt _ (by decide)

variable {b : Bool} {m : Nat}

theorem toNat_ofMagnitude (h : m < 2 ^ 63) :
    (ofMagnitude b m).bits.toNat = (if b then 2 ^ 63 else 0) + m := by
  have hp : Nat.pow 2 63 = 2 ^ 63 := rfl
  simp only [ofMagnitude, hp, UInt64.toNat_ofNat']
  split <;> omega

theorem magnitude_ofMagnitude (h : m < 2 ^ 63) : (ofMagnitude b m).magnitude = m := by
  rw [magnitude, toNat_ofMagnitude h]
  split <;> omega

theorem ofMagnitude_magnitude (x : Binary64) : ofMagnitude x.isNegative x.magnitude = x := by
  have hp : Nat.pow 2 63 = 2 ^ 63 := rfl
  have hlt := x.bits.toNat_lt
  obtain ⟨bits⟩ := x
  simp only [ofMagnitude, isNegative, magnitude, hp, mk.injEq] at *
  apply UInt64.toNat_inj.1
  rw [UInt64.toNat_ofNat']
  by_cases h : 2 ^ 63 ≤ bits.toNat
  · rw [if_pos (by simpa using h)]
    omega
  · rw [if_neg (by simpa using h)]
    omega

theorem biased_eq (x : Binary64) : x.biased = x.magnitude / 2 ^ 52 := by
  have hp : Nat.pow 2 52 = 2 ^ 52 := rfl
  have hq : Nat.pow 2 11 = 2 ^ 11 := rfl
  rw [biased, magnitude, hp, hq]
  omega

theorem fraction_eq (x : Binary64) : x.fraction = x.magnitude % 2 ^ 52 := by
  have hp : Nat.pow 2 52 = 2 ^ 52 := rfl
  rw [fraction, magnitude, hp]
  omega

theorem infinityMagnitude_eq : infinityMagnitude = 2047 * 2 ^ 52 := rfl

/-! ## Sign change -/

/-- A flip of the bit above the magnitude. -/
theorem xor_signBit (n : Nat) : n ^^^ 2 ^ 63 = 2 ^ 63 * (n / 2 ^ 63 ^^^ 1) + n % 2 ^ 63 := by
  have hd : (n ^^^ 2 ^ 63) / 2 ^ 63 = n / 2 ^ 63 ^^^ 1 := by
    rw [Nat.xor_div_two_pow, Nat.div_self (by decide)]
  have hm : (n ^^^ 2 ^ 63) % 2 ^ 63 = n % 2 ^ 63 := by
    rw [Nat.xor_mod_two_pow, Nat.mod_self, Nat.xor_zero]
  rw [← hd, ← hm, Nat.div_add_mod]

theorem neg_ofMagnitude (h : m < 2 ^ 63) : (ofMagnitude b m).neg = ofMagnitude (!b) m := by
  apply congrArg mk
  apply UInt64.toNat_inj.1
  show ((ofMagnitude b m).bits ^^^ 0x8000000000000000).toNat = (ofMagnitude (!b) m).bits.toNat
  have hc : (0x8000000000000000 : UInt64).toNat = 2 ^ 63 := rfl
  rw [UInt64.toNat_xor, hc, toNat_ofMagnitude h, toNat_ofMagnitude h, xor_signBit]
  cases b with
  | true =>
    have hd : (2 ^ 63 + m) / 2 ^ 63 = 1 := by omega
    have hr : (2 ^ 63 + m) % 2 ^ 63 = m := by omega
    show 2 ^ 63 * ((2 ^ 63 + m) / 2 ^ 63 ^^^ 1) + (2 ^ 63 + m) % 2 ^ 63 = 0 + m
    rw [hd, hr, Nat.xor_self, Nat.mul_zero]
  | false =>
    have hd : (0 + m) / 2 ^ 63 = 0 := by omega
    have hr : (0 + m) % 2 ^ 63 = m := by omega
    show 2 ^ 63 * ((0 + m) / 2 ^ 63 ^^^ 1) + (0 + m) % 2 ^ 63 = 2 ^ 63 + m
    rw [hd, hr, Nat.zero_xor, Nat.mul_one]

theorem isNaN_eq (x : Binary64) : x.isNaN = decide (infinityMagnitude < x.magnitude) := by
  have := x.magnitude_lt
  rw [isNaN, biased_eq, fraction_eq, infinityMagnitude_eq]
  apply decide_eq_decide.2
  omega

theorem isFinite_eq (x : Binary64) : x.isFinite = decide (x.magnitude < infinityMagnitude) := by
  have := x.magnitude_lt
  rw [isFinite, biased_eq, infinityMagnitude_eq]
  apply decide_eq_decide.2
  omega

theorem isNaN_ofMagnitude (h : m ≤ infinityMagnitude) : (ofMagnitude b m).isNaN = false := by
  rw [infinityMagnitude_eq] at h
  rw [isNaN_eq, magnitude_ofMagnitude (by omega), infinityMagnitude_eq]
  exact decide_eq_false (by omega)

theorem magnitude_neg (x : Binary64) : x.neg.magnitude = x.magnitude := by
  conv => lhs; rw [← ofMagnitude_magnitude x, neg_ofMagnitude x.magnitude_lt]
  exact magnitude_ofMagnitude x.magnitude_lt

theorem isNaN_neg (x : Binary64) : x.neg.isNaN = x.isNaN := by
  rw [isNaN_eq, isNaN_eq, magnitude_neg]

/-! ## Numbers that are read -/

theorem isNaN_ofRatio (b : Bool) (num den : Nat) : (ofRatio b num den).isNaN = false := by
  unfold ofRatio
  split
  · exact isNaN_ofMagnitude (Nat.zero_le _)
  · exact isNaN_ofMagnitude (Nat.min_le_left _ _)

theorem isNaN_ofDecimal (b : Bool) (digits : Nat) (e : Int) : (ofDecimal b digits e).isNaN = false := by
  have hz : (zero b).isNaN = false := isNaN_ofMagnitude (Nat.zero_le _)
  have hi : (infinity b).isNaN = false := isNaN_ofMagnitude (Nat.le_refl _)
  unfold ofDecimal
  split
  · exact hz
  · dsimp only
    split
    · exact hi
    · split
      · exact hz
      · split
        · exact isNaN_ofRatio _ _ _
        · exact isNaN_ofRatio _ _ _

theorem toLower_isDigit {c : Char} (h : c.isDigit = true) : c.toLower = c := by
  simp only [Char.isDigit, Bool.and_eq_true, decide_eq_true_eq, UInt32.le_iff_toNat_le, ge_iff_le] at h
  have e : 'A'.val.toNat = 65 ∧ '9'.val.toNat = 57 := by decide
  unfold Char.toLower
  rw [dif_neg]
  rintro ⟨h1, -⟩
  rw [ge_iff_le, UInt32.le_iff_toNat_le] at h1
  omega

/-- A text with a digit in front is none of the words for special numbers. -/
theorem asciiLower_digit_ne {d : Char} {ds : List Char} (hd : d.isDigit = true) {w : String}
    (hw : w.toList.head?.any Char.isDigit = false) :
    (asciiLower (String.ofList (d :: ds)) == w) = false := by
  rw [beq_eq_false_iff_ne]
  rintro rfl
  have hhead : (asciiLower (String.ofList (d :: ds))).toList.head? = some d := by
    simp [asciiLower, toLower_isDigit hd]
  rw [hhead, Option.any_some, hd] at hw
  cases hw

theorem ofText_digit {d : Char} (ds : List Char) (hd : d.isDigit = true) :
    ofText? (String.ofList (d :: ds)) =
      (decimal? (d :: ds)).map fun x => ofDecimal false x.1 x.2 := by
  have hs : splitSign (d :: ds) = (false, d :: ds) := by
    unfold splitSign
    split
    · next e => cases e; exact absurd hd (by decide)
    · next e => cases e; exact absurd hd (by decide)
    · rfl
  have hi : (asciiLower (String.ofList (d :: ds)) == "inf") = false := asciiLower_digit_ne hd (by decide)
  have hl : (asciiLower (String.ofList (d :: ds)) == "infinity") = false :=
    asciiLower_digit_ne hd (by decide)
  have hn : (asciiLower (String.ofList (d :: ds)) == "nan") = false := asciiLower_digit_ne hd (by decide)
  unfold ofText?
  simp only [String.toList_ofList, hs, hi, hl, hn]
  cases decimal? (d :: ds) with
  | none => rfl
  | some x => rfl

/-- Digits stand for a number, never for a NaN. -/
theorem isNaN_ofText {d : Char} {ds : List Char} {x : Binary64} (hd : d.isDigit = true)
    (h : ofText? (String.ofList (d :: ds)) = some x) : x.isNaN = false := by
  rw [ofText_digit ds hd, Option.map_eq_some_iff] at h
  obtain ⟨y, -, rfl⟩ := h
  exact isNaN_ofDecimal _ _ _

end Erd.Binary64
