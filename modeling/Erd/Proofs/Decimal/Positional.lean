import Mathlib.Algebra.Order.Field.Rat
import Erd.Decimal.Literal
import Erd.Decimal.Notation
import Erd.Proofs.Token.Terminal

/-!
# Positional notation

The positional form of a decimal is a numeral, and it is read as a decimal of the same value.

    IsNumeral d.positional                                                (isNumeral_positional)
    decimal? d.positional = some d.read                                    (decimal_positional)
-/

namespace Erd

/-! ## Digits -/

theorem natOfDigits_eq (ds : List Char) : natOfDigits ds = Nat.ofDigitChars 10 ds 0 := by
  rw [natOfDigits, Nat.ofDigitChars_eq_foldl]
  rfl

theorem natOfDigits_append (ds es : List Char) :
    natOfDigits (ds ++ es) = Nat.ofDigitChars 10 es (natOfDigits ds) := by
  rw [natOfDigits_eq, natOfDigits_eq, Nat.ofDigitChars_append]

namespace Decimal

theorem isDigit_of_mem_digitChars {n : Nat} {c : Char} (h : c ∈ digitChars n) : c.isDigit = true :=
  Nat.isDigit_of_mem_toDigits (by decide) (by decide) h

theorem isDigit_of_mem_zeros {n : Nat} {c : Char} (h : c ∈ List.replicate n '0') : c.isDigit = true := by
  rw [List.eq_of_mem_replicate h]
  rfl

theorem digitChars_ne_nil (n : Nat) : digitChars n ≠ [] := Nat.toDigits_ne_nil

theorem natOfDigits_digitChars (n : Nat) : natOfDigits (digitChars n) = n := by
  rw [natOfDigits_eq]
  exact Nat.ofDigitChars_ten_toDigits

theorem natOfDigits_digitChars_zeros (n k : Nat) :
    natOfDigits (digitChars n ++ List.replicate k '0') = n * 10 ^ k := by
  rw [natOfDigits_append, natOfDigits_digitChars, Nat.ofDigitChars_replicate_zero, Nat.mul_comm]

theorem natOfDigits_zeros_digitChars (n k : Nat) :
    natOfDigits (List.replicate k '0' ++ digitChars n) = n := by
  have hz : natOfDigits (List.replicate k '0') = 0 := by
    rw [natOfDigits_eq, Nat.ofDigitChars_replicate_zero, Nat.mul_zero]
  rw [natOfDigits_append, hz, ← natOfDigits_eq, natOfDigits_digitChars]

/-! ## Both sides of the point -/

/-- What the positional form is read as: an integer, or the decimal itself. -/
def read (d : Decimal) : Nat × Int :=
  if 0 ≤ d.exponent then (d.digits * 10 ^ d.exponent.natAbs, 0) else (d.digits, d.exponent)

/-- What the sides of the point hold. -/
structure Sides (d : Decimal) (int frac : List Char) : Prop where
  int_ne : int ≠ []
  int_digits : ∀ c ∈ int, c.isDigit = true
  frac_digits : ∀ c ∈ frac, c.isDigit = true
  value : natOfDigits (int ++ frac) = d.read.1
  places : -(frac.length : Int) = d.read.2

theorem sides_split (d : Decimal) : d.Sides d.split.1 d.split.2 := by
  by_cases he : 0 ≤ d.exponent
  · have hs : d.split = (digitChars d.digits ++ List.replicate d.exponent.natAbs '0', []) := if_pos he
    have hr : d.read = (d.digits * 10 ^ d.exponent.natAbs, 0) := if_pos he
    rw [hs]
    refine ⟨by simp [digitChars_ne_nil], ?_, nofun, ?_, by rw [hr]; rfl⟩
    · intro c hc
      rcases List.mem_append.1 hc with hc | hc
      · exact isDigit_of_mem_digitChars hc
      · exact isDigit_of_mem_zeros hc
    · rw [List.append_nil, natOfDigits_digitChars_zeros, hr]
  · have hr : d.read = (d.digits, d.exponent) := if_neg he
    by_cases hp : d.exponent.natAbs < (digitChars d.digits).length
    · have hs : d.split = ((digitChars d.digits).take ((digitChars d.digits).length - d.exponent.natAbs),
          (digitChars d.digits).drop ((digitChars d.digits).length - d.exponent.natAbs)) :=
        (if_neg he).trans (if_pos hp)
      rw [hs]
      refine ⟨?_, ?_, ?_, ?_, ?_⟩
      · intro h
        have := congrArg List.length h
        simp only [List.length_take, List.length_nil] at this
        omega
      · exact fun c hc => isDigit_of_mem_digitChars (List.mem_of_mem_take hc)
      · exact fun c hc => isDigit_of_mem_digitChars (List.mem_of_mem_drop hc)
      · rw [List.take_append_drop, natOfDigits_digitChars, hr]
      · rw [hr]
        simp only [List.length_drop]
        omega
    · have hs : d.split = (['0'],
          List.replicate (d.exponent.natAbs - (digitChars d.digits).length) '0' ++ digitChars d.digits) :=
        (if_neg he).trans (if_neg hp)
      rw [hs]
      refine ⟨by simp, ?_, ?_, ?_, ?_⟩
      · intro c hc
        rw [List.mem_singleton.1 hc]
        rfl
      · intro c hc
        rcases List.mem_append.1 hc with hc | hc
        · exact isDigit_of_mem_zeros hc
        · exact isDigit_of_mem_digitChars hc
      · rw [List.singleton_append, ← List.cons_append, ← List.replicate_succ,
          natOfDigits_zeros_digitChars, hr]
      · rw [hr]
        simp only [List.length_append, List.length_replicate]
        omega

theorem isNumeral_positional (d : Decimal) : IsNumeral d.positional := by
  have h := d.sides_split
  unfold positional
  dsimp only
  split
  · exact .whole h.int_ne h.int_digits
  · next hf => exact .fraction h.int_ne h.int_digits (by simpa using hf) h.frac_digits

theorem splitDigits_append {ds r : List Char} (h : ∀ c ∈ ds, c.isDigit = true)
    (hr : StopsAt Char.isDigit r) : splitDigits (ds ++ r) = (ds, r) := by
  rw [splitDigits, takeWhile_stopsAt h hr, dropWhile_stopsAt h hr]

theorem splitDigits_self {ds : List Char} (h : ∀ c ∈ ds, c.isDigit = true) : splitDigits ds = (ds, []) := by
  have hs := splitDigits_append h stopsAt_nil
  rwa [List.append_nil] at hs

theorem decimal_whole {ds : List Char} (ne : ds ≠ []) (all : ∀ c ∈ ds, c.isDigit = true) :
    decimal? ds = some (natOfDigits ds, 0) := by
  have hs := splitDigits_self all
  have hint : ds.isEmpty = false := by simpa using ne
  unfold decimal?
  simp only [hs, hint, Bool.false_and, Bool.false_eq_true, if_false, List.append_nil]
  rfl

theorem decimal_fraction {ds fs : List Char} (ne : ds ≠ []) (all : ∀ c ∈ ds, c.isDigit = true)
    (fall : ∀ c ∈ fs, c.isDigit = true) :
    decimal? (ds ++ '.' :: fs) = some (natOfDigits (ds ++ fs), -(fs.length : Int)) := by
  have hs := splitDigits_append all (r := '.' :: fs) (stopsAt_cons.2 (by decide))
  have hs' := splitDigits_self fall
  have hint : ds.isEmpty = false := by simpa using ne
  unfold decimal?
  simp only [hs, hs', hint, Bool.false_and, Bool.false_eq_true, if_false, Int.zero_sub]

theorem decimal_positional (d : Decimal) : decimal? d.positional = some d.read := by
  have h := d.sides_split
  have hv := h.value
  have hp := h.places
  unfold positional
  dsimp only
  split
  · next hf =>
    have hf : d.split.2 = [] := by simpa using hf
    rw [hf, List.append_nil] at hv
    rw [hf] at hp
    rw [decimal_whole h.int_ne h.int_digits, hv]
    exact congrArg some (Prod.ext rfl hp)
  · rw [decimal_fraction h.int_ne h.int_digits h.frac_digits, hv]
    exact congrArg some (Prod.ext rfl hp)

end Decimal

end Erd
