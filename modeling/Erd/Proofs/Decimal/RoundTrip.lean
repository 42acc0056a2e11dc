import Erd.Proofs.Decimal.Nearest
import Erd.Proofs.Decimal.Positional

/-!
# What is printed reads back

The digits that are printed for a finite number lie in its interval, so that their decimal rounds to it.

    x.readsBack n k = true → x.Interval (n * 10 ^ k)                        (interval_of_readsBack)
    x.Interval (n * 10 ^ k) → ofDecimal false n k = |x|                          (ofDecimal_interval)
    ofText? |x|.toSource = some |x|                                        (ofText_positional)
-/

namespace Erd

/-- The value `digits · 10 ^ exponent`. -/
def Decimal.value (d : Decimal) : ℚ := d.digits * 10 ^ d.exponent

namespace Binary64

variable {x : Binary64} {tie : Tie}

/-! ## Digits in the interval -/

/-- The units in which the bounds are compared with the decimal. -/
theorem commonUnits_pos (x : Binary64) (k : ℤ) : 0 < (x.commonUnits k).1 ∧ 0 < (x.commonUnits k).2 := by
  unfold commonUnits
  dsimp only
  constructor
  · refine Nat.mul_pos ?_ ?_ <;> split <;> first | exact Nat.pow_pos (by decide) | exact Nat.one_pos
  · refine Nat.mul_pos ?_ ?_ <;> split <;> first | exact Nat.pow_pos (by decide) | exact Nat.one_pos

/-- A power of ten in quarters of a unit. -/
theorem commonUnits_eq (x : Binary64) (k : ℤ) :
    ((x.commonUnits k).1 : ℚ) * 2 ^ (x.exponent - 2) = (x.commonUnits k).2 * 10 ^ k := by
  have h2 : (2 : ℚ) ^ (x.exponent - 2).natAbs ≠ 0 := by positivity
  have h10 : (10 : ℚ) ^ k.natAbs ≠ 0 := by positivity
  rw [zpow_natAbs, zpow_natAbs]
  unfold commonUnits
  simp only [pow_eq]
  generalize x.exponent - 2 = q at *
  by_cases hk : k < 0 <;> by_cases hq : q < 0
  · rw [if_neg (by omega : ¬0 ≤ k), if_neg (by omega : ¬0 ≤ q), if_pos hk, if_pos hk, if_pos hq, if_pos hq]
    push_cast
    field_simp
  · rw [if_neg (by omega : ¬0 ≤ k), if_pos (by omega : 0 ≤ q), if_pos hk, if_pos hk, if_neg hq, if_neg hq]
    push_cast
    field_simp
  · rw [if_pos (by omega : 0 ≤ k), if_neg (by omega : ¬0 ≤ q), if_neg hk, if_neg hk, if_pos hq, if_pos hq]
    push_cast
    field_simp
  · rw [if_pos (by omega : 0 ≤ k), if_pos (by omega : 0 ≤ q), if_neg hk, if_neg hk, if_neg hq, if_neg hq]
    push_cast
    ring

/-- Bounds in quarters of a unit, compared with a decimal over the common denominator. -/
theorem bound_iff (n b : Nat) (k : ℤ) :
    (b * (x.commonUnits k).2 ≤ n * (x.commonUnits k).1 ↔ (b : ℚ) * 2 ^ (x.exponent - 2) ≤ n * 10 ^ k) ∧
      (n * (x.commonUnits k).1 ≤ b * (x.commonUnits k).2 ↔
        (n : ℚ) * 10 ^ k ≤ b * 2 ^ (x.exponent - 2)) := by
  obtain ⟨-, hq⟩ := x.commonUnits_pos k
  have hq : (0 : ℚ) < (x.commonUnits k).2 := by exact_mod_cast hq
  have hu := x.commonUnits_eq k
  have hp := two_zpow_pos (x.exponent - 2)
  -- both sides times the quarter and the common denominator
  have hb : (b : ℚ) * (x.commonUnits k).2 * 2 ^ (x.exponent - 2) =
      b * 2 ^ (x.exponent - 2) * (x.commonUnits k).2 := by ring
  have hn : (n : ℚ) * (x.commonUnits k).1 * 2 ^ (x.exponent - 2) = n * 10 ^ k * (x.commonUnits k).2 := by
    rw [mul_assoc, hu]
    ring
  constructor
  · rw [← mul_le_mul_iff_left₀ hq, ← hb, ← hn, mul_le_mul_iff_left₀ hp]
    norm_cast
  · rw [← mul_le_mul_iff_left₀ hq, ← hb, ← hn, mul_le_mul_iff_left₀ hp]
    norm_cast

theorem interval_of_readsBack {n : Nat} {k : ℤ} (h : x.readsBack n k = true) :
    x.Interval (n * 10 ^ k) := by
  have hl := @bound_iff x n x.lowQuarters k
  have hh := @bound_iff x n x.highQuarters k
  unfold readsBack at h
  dsimp only at h
  split at h
  · next he =>
    simp only [Bool.and_eq_true, decide_eq_true_eq] at h
    exact ⟨hl.1.1 h.1, hh.2.1 h.2, fun ho => by omega⟩
  · simp only [Bool.and_eq_true, decide_eq_true_eq] at h
    have h1 := not_le.1 fun hle => absurd (hl.2.2 hle) (by omega)
    have h2 := not_le.1 fun hle => absurd (hh.1.2 hle) (by omega)
    exact ⟨h1.le, h2.le, fun _ => ⟨h1, h2⟩⟩

/-! ## The digits that are taken -/

theorem readsBack_of_onGrid {k : ℤ} {n : Nat} (h : x.onGrid? tie k = some n) : x.readsBack n k = true := by
  unfold onGrid? at h
  dsimp only at h
  generalize x.quarters * (x.commonUnits k).2 / (x.commonUnits k).1 = below at h
  generalize 2 * (x.quarters * (x.commonUnits k).2 % (x.commonUnits k).1) = rest at h
  split at h
  · next hboth =>
    simp only [Bool.and_eq_true] at hboth
    obtain ⟨⟨-, hb⟩, ha⟩ := hboth
    split at h
    · cases h
      exact hb
    · split at h
      · cases h
        exact ha
      · cases tie with
        | up => cases h; exact ha
        | even =>
          cases h
          rcases Nat.mod_two_eq_zero_or_one below with hm | hm
          · rw [hm]
            exact hb
          · rw [hm]
            exact ha
  · split at h
    · next hb =>
      simp only [Bool.and_eq_true] at hb
      cases h
      exact hb.2
    · split at h
      · next ha => cases h; exact ha
      · cases h

theorem readsBack_of_coarsest {n : Nat} {k : ℤ} {d : Decimal} (h : x.coarsest? tie n k = some d) :
    x.readsBack d.digits d.exponent = true := by
  induction n generalizing k with
  | zero => cases h
  | succ n ih =>
    unfold coarsest? at h
    split at h
    · next he =>
      cases h
      exact readsBack_of_onGrid he
    · exact ih h

/-- The exact value lies in the interval. -/
theorem interval_self (hm : 0 < x.mantissa) : x.Interval (x.mantissa * 2 ^ x.exponent) := by
  have hp := two_zpow_pos x.exponent
  have hh := x.high_eq
  have hl : (x.lowQuarters : ℚ) * 2 ^ (x.exponent - 2) < x.mantissa * 2 ^ x.exponent := by
    have hlt : x.lowQuarters < 4 * x.mantissa := by
      rcases x.lowQuarters_eq with h | ⟨h, -, -⟩ <;> omega
    have hlt : (x.lowQuarters : ℚ) < 4 * x.mantissa := by exact_mod_cast hlt
    rw [quarter_eq]
    calc (x.lowQuarters : ℚ) * (2 ^ x.exponent / 4) < 4 * x.mantissa * (2 ^ x.exponent / 4) :=
          mul_lt_mul_of_pos_right hlt (by linarith)
      _ = x.mantissa * 2 ^ x.exponent := by ring
  have hu : (x.mantissa : ℚ) * 2 ^ x.exponent < x.highQuarters * 2 ^ (x.exponent - 2) := by
    rw [hh]
    exact mul_lt_mul_of_pos_right (by linarith) hp
  exact ⟨hl.le, hu.le, fun _ => ⟨hl, hu⟩⟩

theorem value_exactDecimal (x : Binary64) : x.exactDecimal.value = x.mantissa * 2 ^ x.exponent := by
  have h10 : (10 : ℚ) = 2 * 5 := by norm_num
  have h5 : (5 : ℚ) ^ x.exponent.natAbs ≠ 0 := by positivity
  unfold exactDecimal Decimal.value
  split
  · next he =>
    have hp : (10 : ℚ) ^ x.exponent = (10 ^ x.exponent.natAbs)⁻¹ := by rw [zpow_natAbs, if_pos he]
    have hq : (2 : ℚ) ^ x.exponent = (2 ^ x.exponent.natAbs)⁻¹ := by rw [zpow_natAbs, if_pos he]
    dsimp only
    rw [hp, hq, pow_eq, h10, mul_pow]
    push_cast
    field_simp
  · next he =>
    have hq : (2 : ℚ) ^ x.exponent = 2 ^ x.exponent.natAbs := by rw [zpow_natAbs, if_neg he]
    dsimp only
    rw [hq, pow_eq, zpow_zero, mul_one]
    push_cast
    rfl

theorem interval_shortest (hm : 0 < x.mantissa) : x.Interval (x.shortest tie).value := by
  unfold shortest
  rw [if_neg (by omega)]
  dsimp only
  cases h : x.coarsest? tie ((x.topExponent - x.exactExponent).toNat + 1) x.topExponent with
  | none =>
    rw [Option.getD_none, value_exactDecimal]
    exact interval_self hm
  | some d => exact interval_of_readsBack (readsBack_of_coarsest h)

/-! ## Reading the digits -/

/-- The leading digit of a natural number. -/
theorem length_toDigits_bounds {n : Nat} (hn : 0 < n) :
    (10 : ℚ) ^ (((Nat.toDigits 10 n).length : ℤ) - 1) ≤ n ∧ (n : ℚ) < 10 ^ ((Nat.toDigits 10 n).length : ℤ) := by
  have hlen : 0 < (Nat.toDigits 10 n).length := Nat.length_toDigits_pos
  constructor
  · obtain ⟨k, hk⟩ : ∃ k, (Nat.toDigits 10 n).length = k + 1 := ⟨_, (Nat.succ_pred_eq_of_pos hlen).symm⟩
    rw [hk, Nat.cast_succ, add_sub_cancel_right, zpow_natCast]
    rcases Nat.eq_zero_or_pos k with rfl | hk0
    · have : (1 : ℚ) ≤ n := by exact_mod_cast hn
      simpa using this
    · have hnot : ¬n < 10 ^ k := fun h => by
        have := (Nat.length_toDigits_le_iff (by decide) hk0).2 h
        omega
      exact_mod_cast not_lt.1 hnot
  · rw [zpow_natCast]
    exact_mod_cast (Nat.length_toDigits_le_iff (by decide) hlen).1 le_rfl

/-- Numbers in an interval are in the range of the format. -/
theorem Interval.range {v : ℚ} (h : x.Interval v) (hf : x.isFinite = true) (hm : 0 < x.mantissa) :
    (2 : ℚ) ^ (-1075 : ℤ) ≤ v ∧ v < 2 ^ (1024 : ℤ) := by
  have hn := x.normal_fields
  have hm1 : (1 : ℚ) ≤ x.mantissa := by exact_mod_cast hm
  have hm2 : (x.mantissa : ℚ) + 1 ≤ 2 ^ 53 := by exact_mod_cast hn.mantissa_lt
  constructor
  · calc (2 : ℚ) ^ (-1075 : ℤ) = 1 / 2 * 2 ^ (-1074 : ℤ) := by
          rw [show (-1075 : ℤ) = -1 + -1074 by norm_num, two_zpow_add]
          norm_num
      _ ≤ 1 / 2 * 2 ^ x.exponent := mul_le_mul_of_nonneg_left (two_zpow_le hn.least) (by norm_num)
      _ ≤ (x.mantissa - 1 / 2) * 2 ^ x.exponent :=
          mul_le_mul_of_nonneg_right (by linarith) (two_zpow_pos _).le
      _ ≤ x.lowQuarters * 2 ^ (x.exponent - 2) := low_ge hm
      _ ≤ v := h.low
  · calc v ≤ x.highQuarters * 2 ^ (x.exponent - 2) := h.high
      _ = (x.mantissa + 1 / 2) * 2 ^ x.exponent := x.high_eq
      _ < 2 ^ 53 * 2 ^ x.exponent := mul_lt_mul_of_pos_right (by linarith) (two_zpow_pos _)
      _ ≤ 2 ^ 53 * 2 ^ (971 : ℤ) := mul_le_mul_of_nonneg_left (two_zpow_le (exponent_le hf)) (by norm_num)
      _ = 2 ^ (1024 : ℤ) := by rw [show (1024 : ℤ) = (53 : ℕ) + 971 by norm_num, two_zpow_add, zpow_natCast]

/-- The order of magnitude of a decimal in range. -/
theorem leading_range {n : Nat} {k : ℤ} (hn : 0 < n) (hl : (2 : ℚ) ^ (-1075 : ℤ) ≤ n * 10 ^ k)
    (hh : (n : ℚ) * 10 ^ k < 2 ^ (1024 : ℤ)) :
    -330 ≤ k + (Nat.toDigits 10 n).length ∧ k + ((Nat.toDigits 10 n).length : ℤ) ≤ 310 := by
  obtain ⟨h1, h2⟩ := length_toDigits_bounds hn
  have h10 : (10 : ℚ) ≠ 0 := by norm_num
  have hk : (0 : ℚ) < 10 ^ k := zpow_pos (by norm_num) k
  generalize ((Nat.toDigits 10 n).length : ℤ) = len at *
  constructor
  · by_contra hlt
    have h3 : (10 : ℚ) ^ (len + k) ≤ 10 ^ (-331 : ℤ) := zpow_le_zpow_right₀ (by norm_num) (by omega)
    have h4 : (10 : ℚ) ^ (-331 : ℤ) < 2 ^ (-1075 : ℤ) := by
      have hnat : (2 : ℕ) ^ 1075 < 10 ^ 331 := by decide +kernel
      have hrat : (2 : ℚ) ^ 1075 < 10 ^ 331 := by exact_mod_cast hnat
      rw [zpow_neg, zpow_neg]
      exact inv_strictAnti₀ (zpow_pos (by norm_num) _) hrat
    have h5 : (n : ℚ) * 10 ^ k < 10 ^ (len + k) := by
      rw [zpow_add₀ h10]
      exact mul_lt_mul_of_pos_right h2 hk
    exact lt_irrefl _ (h4.trans_le (hl.trans (h5.le.trans h3)))
  · by_contra hlt
    have h3 : (10 : ℚ) ^ (310 : ℤ) ≤ 10 ^ (len - 1 + k) := zpow_le_zpow_right₀ (by norm_num) (by omega)
    have h4 : (2 : ℚ) ^ (1024 : ℤ) < 10 ^ (310 : ℤ) := by
      have hnat : (2 : ℕ) ^ 1024 < 10 ^ 310 := by decide +kernel
      exact_mod_cast hnat
    have h5 : (10 : ℚ) ^ (len - 1 + k) ≤ n * 10 ^ k := by
      rw [zpow_add₀ h10]
      exact mul_le_mul_of_nonneg_right h1 hk.le
    exact lt_irrefl _ (h4.trans_le (h3.trans (h5.trans hh.le)))

theorem ofDecimal_interval {n : Nat} {k : ℤ} (hf : x.isFinite = true) (hm : 0 < x.mantissa)
    (h : x.Interval (n * 10 ^ k)) (b : Bool) : ofDecimal b n k = ofMagnitude b x.magnitude := by
  have hn : 0 < n := by
    have := h.pos hm
    rcases Nat.eq_zero_or_pos n with rfl | hn
    · simp at this
    · exact hn
  obtain ⟨hlow, hhigh⟩ := h.range hf hm
  obtain ⟨hl, hh⟩ := leading_range hn hlow hhigh
  have h10 : 0 < 10 ^ k.natAbs := Nat.pow_pos (by decide)
  unfold ofDecimal
  dsimp only
  rw [if_neg (by omega), if_neg (by omega), if_neg (by omega), pow_eq]
  split
  · next hk =>
    refine ofRatio_interval hf hm h10 ?_ b
    rw [zpow_natAbs, if_pos hk, ← div_eq_mul_inv] at h
    exact_mod_cast h
  · next hk =>
    refine ofRatio_interval hf hm Nat.one_pos ?_ b
    rw [zpow_natAbs, if_neg hk] at h
    rw [Nat.cast_one, div_one]
    exact_mod_cast h

/-- The positional form has the value of the decimal. -/
theorem value_read (d : Decimal) : (d.read.1 : ℚ) * 10 ^ d.read.2 = d.value := by
  unfold Decimal.read Decimal.value
  split
  · next he =>
    have hp : (10 : ℚ) ^ d.exponent = 10 ^ d.exponent.natAbs := by rw [zpow_natAbs, if_neg (by omega)]
    rw [hp, zpow_zero, mul_one]
    push_cast
    rfl
  · rfl

/-- The digits of a finite number are read as its magnitude. -/
theorem ofText_positional (hf : x.isFinite = true) :
    ofText? (String.ofList (x.shortest tie).positional) = some (ofMagnitude false x.magnitude) := by
  obtain ⟨d, ds, hd, hdigit⟩ := (Decimal.isNumeral_positional (x.shortest tie)).exists_cons
  have hpos := Decimal.decimal_positional (x.shortest tie)
  rw [hd] at hpos ⊢
  rw [ofText_digit ds hdigit, hpos, Option.map_some]
  refine congrArg some ?_
  rcases Nat.eq_zero_or_pos x.mantissa with hm | hm
  · have hs : x.shortest tie = ⟨0, 0⟩ := if_pos hm
    have hx : x.magnitude = 0 := by
      have := x.magnitude_fields
      have := x.normal_fields
      have hn := this.normal
      have hl := this.least
      omega
    rw [hs, hx]
    rfl
  · refine ofDecimal_interval hf hm ?_ false
    rw [value_read]
    exact interval_shortest hm

end Binary64

end Erd
