import Erd.Decimal.Binary64

/-!
# The total order of binary floating-point numbers

Every pattern of 64 bits has a place among all of them: those with a sign bit come first, the greatest
magnitude before all, and the rest follow by magnitude.  Values that compare as less are in that order.

    a < b → (ofFloat a).ordinal < (ofFloat b).ordinal                        (ordinal_lt)
-/

namespace Erd

namespace Binary64

open Float.Model UnpackedFloat

/-- The place of a number among all patterns. -/
def ordinal (x : Binary64) : Int :=
  if x.isNegative then Nat.pow 2 63 - 1 - x.bits.toNat else x.bits.toNat

/-! ## Fields -/

def sign (x : Binary64) : Sign := if x.isNegative then .negative else .positive

/-- The bits below the sign. -/
def unsigned (x : Binary64) : Nat := x.biased * Nat.pow 2 52 + x.fraction

/-- The place of a sign and the bits below it. -/
def place : Sign → Nat → Int
  | .negative, unsigned => -1 - unsigned
  | .positive, unsigned => unsigned

theorem ordinal_eq (x : Binary64) : x.ordinal = place x.sign x.unsigned := by
  have hx := x.bits.toNat_lt
  unfold ordinal sign isNegative unsigned biased fraction
  simp only [Nat.pow_eq, decide_eq_true_eq]
  split
  · show _ = -1 - ((_ : Nat) : Int)
    omega
  · show _ = ((_ : Nat) : Int)
    omega

theorem unpackSign_eq (x : Binary64) : Sign.ofBitVec (@unpackSign .binary64 x.bits.toBitVec) = x.sign := by
  have hx := x.bits.toNat_lt
  have h : (@unpackSign .binary64 x.bits.toBitVec).toNat = x.bits.toNat / 2 ^ 63 := by
    unfold unpackSign
    rw [BitVec.toNat_cast, BitVec.extractLsb_toNat, Nat.shiftRight_eq_div_pow]
    show x.bits.toNat / 2 ^ 63 % 2 = _
    omega
  unfold Sign.ofBitVec sign isNegative
  simp only [← BitVec.toNat_inj, h, Nat.pow_eq, decide_eq_true_eq, BitVec.toNat_ofNat, Nat.zero_mod]
  split <;> split <;> first | rfl | omega

theorem toNat_unpackExponent (x : Binary64) : (@unpackExponent .binary64 x.bits.toBitVec).toNat = x.biased := by
  unfold unpackExponent biased
  rw [BitVec.toNat_cast, BitVec.extractLsb_toNat, Nat.shiftRight_eq_div_pow]
  rfl

theorem toNat_unpackMantissa (x : Binary64) : (@unpackMantissa .binary64 x.bits.toBitVec).toNat = x.fraction := by
  unfold unpackMantissa fraction
  rw [BitVec.toNat_cast, BitVec.extractLsb_toNat, Nat.shiftRight_eq_div_pow]
  simp

theorem unpackExponent_eq_last {x : Binary64} :
    @unpackExponent .binary64 x.bits.toBitVec = -1#11 ↔ x.biased = 2047 := by
  rw [← BitVec.toNat_inj, toNat_unpackExponent]
  rfl

theorem unpackExponent_eq_zero {x : Binary64} :
    @unpackExponent .binary64 x.bits.toBitVec = 0#11 ↔ x.biased = 0 := by
  rw [← BitVec.toNat_inj, toNat_unpackExponent]
  rfl

theorem unpackMantissa_eq_zero {x : Binary64} :
    @unpackMantissa .binary64 x.bits.toBitVec = 0#52 ↔ x.fraction = 0 := by
  rw [← BitVec.toNat_inj, toNat_unpackMantissa]
  rfl

theorem toNat_implied (fraction : BitVec 52) : (1#1 ++ fraction).toNat = Nat.pow 2 52 + fraction.toNat := by
  rw [BitVec.toNat_append, ← Nat.shiftLeft_add_eq_or_of_lt fraction.isLt]
  rfl

/-! ## Values -/

/-- What the bits below a sign stand for; the mantissa of a finite number is the greatest there is. -/
inductive Unpacked (s : Sign) (unsigned : Nat) : UnpackedFloat → Prop where
  | notANumber : Unpacked s unsigned .notANumber
  | infinity (h : unsigned = infinityMagnitude) : Unpacked s unsigned (.infinity s)
  | zero (h : unsigned = 0) : Unpacked s unsigned (.zero s)
  | finite {m : Nat} {e : Int} (hm : 0 < m) (hlt : m < Nat.pow 2 53)
      (he : e = -1074 ∨ -1074 < e ∧ Nat.pow 2 52 ≤ m) (heq : (e + 1074) * Nat.pow 2 52 + m = unsigned)
      (hfinite : unsigned < infinityMagnitude) : Unpacked s unsigned (.finite s m e hm)

theorem unpacked (x : Binary64) :
    Unpacked x.sign x.unsigned (UnpackedFloat.unpack .binary64 x.bits.toBitVec) := by
  have hb : x.biased < 2 ^ 11 := Nat.mod_lt _ (by decide)
  have hf : x.fraction < 2 ^ 52 := Nat.mod_lt _ (by decide)
  have hm := x.toNat_unpackMantissa
  have he : ((@unpackExponent .binary64 x.bits.toBitVec).toNat : Int) -
      (Format.binary64.exponentBias + (52 : Nat)) = x.biased - 1075 :=
    congrArg (fun n : Nat => (n : Int) - 1075) x.toNat_unpackExponent
  unfold UnpackedFloat.unpack
  dsimp only
  rw [unpackSign_eq]
  by_cases hlast : x.biased = 2047
  · rw [if_pos (unpackExponent_eq_last.2 hlast)]
    by_cases h0 : x.fraction = 0
    · rw [if_pos (unpackMantissa_eq_zero.2 h0)]
      exact .infinity (by simp only [unsigned, infinityMagnitude, hlast, h0, Nat.add_zero])
    · rw [if_neg (mt unpackMantissa_eq_zero.1 h0)]
      exact .notANumber
  rw [if_neg (mt unpackExponent_eq_last.1 hlast)]
  by_cases hfirst : x.biased = 0
  · rw [if_pos (unpackExponent_eq_zero.2 hfirst)]
    by_cases h0 : x.fraction = 0
    · rw [dif_pos (unpackMantissa_eq_zero.2 h0)]
      exact .zero (by simp only [unsigned, hfirst, h0, Nat.zero_mul])
    · rw [dif_neg (mt unpackMantissa_eq_zero.1 h0)]
      refine .finite _ ?_ ?_ ?_ ?_ <;> simp only [unsigned, infinityMagnitude, Nat.pow_eq] <;> omega
  · rw [if_neg (mt unpackExponent_eq_zero.1 hfirst)]
    have hm := (toNat_implied _).trans (congrArg (Nat.pow 2 52 + ·) hm)
    rw [Nat.pow_eq] at hm
    refine .finite _ ?_ ?_ ?_ ?_ <;> simp only [unsigned, infinityMagnitude, Nat.pow_eq] <;> omega

/-! ## Order -/

variable {s t : Sign} {m n : Nat} {u v : UnpackedFloat}

/-- Exponents come before mantissas, as they do in the pattern. -/
theorem then_compare {a b : Nat} {e f : Int} (ha : a < Nat.pow 2 53) (hb : b < Nat.pow 2 53)
    (he : e = -1074 ∨ -1074 < e ∧ Nat.pow 2 52 ≤ a) (hf : f = -1074 ∨ -1074 < f ∧ Nat.pow 2 52 ≤ b)
    (hm : (e + 1074) * Nat.pow 2 52 + a = m) (hn : (f + 1074) * Nat.pow 2 52 + b = n) :
    (compare e f).then (compare a b) = compare m n := by
  simp only [Nat.pow_eq] at *
  rcases Nat.lt_trichotomy m n with h | h | h
  · rw [Nat.compare_eq_lt.2 h, Ordering.then_eq_lt, Int.compare_eq_lt, Int.compare_eq_eq, Nat.compare_eq_lt]
    omega
  · rw [Nat.compare_eq_eq.2 h, Ordering.then_eq_eq, Int.compare_eq_eq, Nat.compare_eq_eq]
    omega
  · rw [Nat.compare_eq_gt.2 h, Ordering.then_eq_gt, Int.compare_eq_gt, Int.compare_eq_eq, Nat.compare_eq_gt]
    omega

/-- A finite number is not zero, and no infinity. -/
theorem Unpacked.bounds {m' : Nat} {e : Int} {hm : 0 < m'} (h : Unpacked s m (.finite s m' e hm)) :
    0 < m ∧ m < infinityMagnitude := by
  cases h with
  | finite _ _ he heq hfinite =>
    refine ⟨?_, hfinite⟩
    simp only [Nat.pow_eq] at he heq
    omega

/-- Values of two patterns are in the order of the patterns' places. -/
theorem Unpacked.place_lt (hu : Unpacked s m u) (hv : Unpacked t n v) (h : u.lt v = true) :
    place s m < place t n := by
  have hless : u.compare v = some .lt := eq_of_beq h
  have hinfinity : 0 < infinityMagnitude := by decide
  -- the signs and the kinds of the values decide, but for two finite numbers of one sign
  cases hu with
  | notANumber => cases hless
  | infinity | zero =>
    cases hv with
    | finite hb hb' hf hn hn' =>
      have := Unpacked.bounds (s := t) (.finite hb hb' hf hn hn')
      cases s <;> cases t <;> cases hless <;> simp only [place] <;> omega
    | notANumber | infinity | zero => cases s <;> cases t <;> cases hless <;> simp only [place] <;> omega
  | finite hpos ha he hm hm' =>
    have := Unpacked.bounds (s := s) (.finite hpos ha he hm hm')
    cases hv with
    | notANumber | infinity | zero => cases s <;> cases t <;> cases hless <;> simp only [place] <;> omega
    | finite _ hb hf hn =>
      have hcompare := then_compare ha hb he hf hm hn
      cases s <;> cases t
      · have hlt := Ordering.swap_eq_lt.1 (Option.some.inj hless)
        have hlt := Nat.compare_eq_gt.1 (hcompare.symm.trans hlt)
        simp only [place]
        omega
      · simp only [place]
        omega
      · cases hless
      · have hlt := Nat.compare_eq_lt.1 (hcompare.symm.trans (Option.some.inj hless))
        simp only [place]
        omega

theorem ordinal_lt {a b : Float} (h : a < b) : (ofFloat a).ordinal < (ofFloat b).ordinal := by
  rw [ordinal_eq, ordinal_eq]
  exact (unpacked (ofFloat a)).place_lt (unpacked (ofFloat b)) (of_decide_eq_true h)

end Binary64

end Erd
