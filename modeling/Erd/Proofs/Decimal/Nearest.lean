import Mathlib.Algebra.Order.Field.Power
import Mathlib.Data.Nat.Log
import Mathlib.Data.Rat.Cast.Order
import Mathlib.Tactic.FieldSimp
import Mathlib.Tactic.Linarith
import Mathlib.Tactic.Ring
import Erd.Decimal.Shortest
import Erd.Proofs.Decimal.Magnitude

/-!
# Rounding to the nearest number

The quotient that `ofRatio` rounds is counted in units of `2 ^ e`, where `e` is the exponent of the number
it rounds to.  A finite number `m · 2 ^ q` is what all quotients of its interval round to.

    2 ^ 52 ≤ v / 2 ^ e < 2 ^ 53      or  e = -1074                        (unitExponent_spec)
    m - 1/2 < n / d < m + 1/2 → divRound n d = m                            (divRound_eq)
    x.Interval (num / den) → ofRatio b num den = ofMagnitude b x.magnitude    (ofRatio_interval)
-/

namespace Erd.Binary64

/-! ## Powers of two -/

theorem pow_eq (b n : Nat) : Nat.pow b n = b ^ n := rfl

theorem two_zpow_pos (e : ℤ) : (0 : ℚ) < 2 ^ e := zpow_pos (by norm_num) e

theorem two_zpow_add (e f : ℤ) : (2 : ℚ) ^ (e + f) = 2 ^ e * 2 ^ f := zpow_add₀ (by norm_num) e f

theorem two_zpow_succ (e : ℤ) : (2 : ℚ) ^ (e + 1) = 2 * 2 ^ e := by
  rw [two_zpow_add, zpow_one, mul_comm]

theorem two_zpow_le {e f : ℤ} (h : e ≤ f) : (2 : ℚ) ^ e ≤ 2 ^ f :=
  zpow_le_zpow_right₀ (by norm_num) h

/-- An integer power as a natural one, above or below the line. -/
theorem zpow_natAbs {b : ℚ} (e : ℤ) : b ^ e = if e < 0 then (b ^ e.natAbs)⁻¹ else b ^ e.natAbs := by
  split
  · next h =>
    conv => lhs; rw [show e = -(e.natAbs : ℤ) by omega, zpow_neg, zpow_natCast]
  · next h =>
    conv => lhs; rw [show e = (e.natAbs : ℤ) by omega, zpow_natCast]

/-! ## Units -/

variable {num den : Nat}

theorem scaled_snd_pos (e : ℤ) (hd : 0 < den) : 0 < (scaled num den e).2 := by
  unfold scaled
  split
  · exact hd
  · exact Nat.mul_pos hd (Nat.pow_pos (by decide))

theorem scaled_eq (e : ℤ) :
    ((scaled num den e).1 : ℚ) / (scaled num den e).2 = num / den / 2 ^ e := by
  have hp : (2 : ℚ) ^ e.natAbs ≠ 0 := by positivity
  rw [zpow_natAbs]
  unfold scaled
  split
  · rw [pow_eq]
    push_cast
    field_simp
  · rw [pow_eq]
    push_cast
    rw [div_div]

/-- The leading bits of a quotient. -/
theorem log_bounds (hn : 0 < num) (hd : 0 < den) :
    (2 : ℚ) ^ ((num.log2 : ℤ) - den.log2 - 1) < num / den ∧
      (num : ℚ) / den < 2 ^ ((num.log2 : ℤ) - den.log2 + 1) := by
  have hd' : (0 : ℚ) < den := by exact_mod_cast hd
  have hn1 : (2 : ℚ) ^ (num.log2 : ℤ) ≤ num := by
    rw [zpow_natCast]
    exact_mod_cast Nat.log2_self_le (by omega)
  have hn2 : (num : ℚ) < 2 ^ ((num.log2 : ℤ) + 1) := by
    have : num < 2 ^ (num.log2 + 1) := Nat.lt_log2_self
    rw [← Nat.cast_succ, zpow_natCast]
    exact_mod_cast this
  have hd1 : (2 : ℚ) ^ (den.log2 : ℤ) ≤ den := by
    rw [zpow_natCast]
    exact_mod_cast Nat.log2_self_le (by omega)
  have hd2 : (den : ℚ) < 2 ^ ((den.log2 : ℤ) + 1) := by
    have : den < 2 ^ (den.log2 + 1) := Nat.lt_log2_self
    rw [← Nat.cast_succ, zpow_natCast]
    exact_mod_cast this
  have hp := two_zpow_pos ((num.log2 : ℤ) - den.log2 - 1)
  have hq := two_zpow_pos ((num.log2 : ℤ) - den.log2 + 1)
  constructor
  · rw [lt_div_iff₀ hd']
    calc (2 : ℚ) ^ ((num.log2 : ℤ) - den.log2 - 1) * den
        < 2 ^ ((num.log2 : ℤ) - den.log2 - 1) * 2 ^ ((den.log2 : ℤ) + 1) :=
          mul_lt_mul_of_pos_left hd2 hp
      _ = 2 ^ (num.log2 : ℤ) := by rw [← two_zpow_add]; congr 1; ring
      _ ≤ num := hn1
  · rw [div_lt_iff₀ hd']
    calc (num : ℚ) < 2 ^ ((num.log2 : ℤ) + 1) := hn2
      _ = 2 ^ ((num.log2 : ℤ) - den.log2 + 1) * 2 ^ (den.log2 : ℤ) := by
          rw [← two_zpow_add]; congr 1; ring
      _ ≤ 2 ^ ((num.log2 : ℤ) - den.log2 + 1) * den := mul_le_mul_of_nonneg_left hd1 hq.le

/-- What the exponent of a quotient is: its units number less than `2 ^ 53`, and at least `2 ^ 52` above the
least exponent of the format. -/
theorem unitExponent_spec (hn : 0 < num) (hd : 0 < den) :
    -1074 ≤ unitExponent num den ∧ (num : ℚ) / den < 2 ^ (53 : ℤ) * 2 ^ unitExponent num den ∧
      (-1074 < unitExponent num den → 2 ^ (52 : ℤ) * 2 ^ unitExponent num den ≤ (num : ℚ) / den) := by
  obtain ⟨h1, h2⟩ := log_bounds hn hd
  -- the exponent before the least one of the format is taken into account
  obtain ⟨e, he, hl, hh⟩ : ∃ e : ℤ, unitExponent num den = max (-1074) e ∧
      2 ^ (52 : ℤ) * 2 ^ e ≤ (num : ℚ) / den ∧ (num : ℚ) / den < 2 ^ (53 : ℤ) * 2 ^ e := by
    have hs := @scaled_eq num den ((num.log2 : ℤ) - den.log2 - 53)
    have hpos := @scaled_snd_pos num den ((num.log2 : ℤ) - den.log2 - 53) hd
    refine ⟨if (scaled num den ((num.log2 : ℤ) - den.log2 - 53)).1 /
        (scaled num den ((num.log2 : ℤ) - den.log2 - 53)).2 < Nat.pow 2 53 then
      (num.log2 : ℤ) - den.log2 - 53 else (num.log2 : ℤ) - den.log2 - 53 + 1, rfl, ?_⟩
    generalize scaled num den ((num.log2 : ℤ) - den.log2 - 53) = nd at hs hpos ⊢
    generalize hlow : (num.log2 : ℤ) - den.log2 - 53 = low at hs ⊢
    have hp := two_zpow_pos low
    rw [show (num.log2 : ℤ) - den.log2 - 1 = 52 + low by omega, two_zpow_add] at h1
    rw [show (num.log2 : ℤ) - den.log2 + 1 = 53 + (low + 1) by omega, two_zpow_add] at h2
    have hdiv : nd.1 / nd.2 < 2 ^ 53 ↔ (num : ℚ) / den < 2 ^ (53 : ℤ) * 2 ^ low := by
      rw [Nat.div_lt_iff_lt_mul hpos, ← div_lt_iff₀ hp, ← hs, div_lt_iff₀ (by exact_mod_cast hpos)]
      norm_cast
    split
    · next h => exact ⟨h1.le, hdiv.1 h⟩
    · next h =>
      refine ⟨?_, h2⟩
      have := not_lt.1 fun h' => h (hdiv.2 h')
      rw [two_zpow_succ, ← mul_assoc]
      calc (2 : ℚ) ^ (52 : ℤ) * 2 * 2 ^ low = 2 ^ (53 : ℤ) * 2 ^ low := by norm_num
        _ ≤ (num : ℚ) / den := this
  rw [he]
  refine ⟨le_max_left _ _, ?_, ?_⟩
  · exact hh.trans_le (mul_le_mul_of_nonneg_left (two_zpow_le (le_max_right _ _)) (two_zpow_pos _).le)
  · intro h
    rw [max_eq_right (by omega)]
    exact hl

/-! ## Rounding a quotient -/

/-- A quotient within half a unit of an integer rounds to it, at half a unit only if it is even; here with
twice the quotient. -/
theorem divRound_of_bounds {n d m : Nat} (hd : 0 < d) (hl : 2 * (d * m) ≤ 2 * n + d)
    (hh : 2 * n ≤ 2 * (d * m) + d)
    (ho : m % 2 = 1 → 2 * (d * m) < 2 * n + d ∧ 2 * n < 2 * (d * m) + d) : divRound n d = m := by
  have hdiv := Nat.div_add_mod n d
  have hmod := Nat.mod_lt n hd
  unfold divRound
  dsimp only
  generalize n / d = q at *
  generalize n % d = r at *
  rcases Nat.lt_trichotomy m q with h | rfl | h
  · -- a whole unit below the integer part
    have : d * m + d ≤ d * q := Nat.mul_le_mul_left d h
    omega
  · split
    · rfl
    · split
      · omega
      · rcases Nat.mod_two_eq_zero_or_one m with hm | hm
        · omega
        · have := ho hm
          omega
  · obtain rfl | h : m = q + 1 ∨ q + 2 ≤ m := by omega
    · rw [Nat.mul_succ] at *
      split
      · omega
      · split
        · rfl
        · rcases Nat.mod_two_eq_zero_or_one (q + 1) with hm | hm
          · omega
          · have := ho hm
            omega
    · have : d * (q + 2) ≤ d * m := Nat.mul_le_mul_left d h
      rw [Nat.mul_add] at this
      omega

theorem divRound_eq {n d m : Nat} (hd : 0 < d) (hl : (m : ℚ) - 1 / 2 ≤ n / d) (hh : (n : ℚ) / d ≤ m + 1 / 2)
    (ho : m % 2 = 1 → (m : ℚ) - 1 / 2 < n / d ∧ (n : ℚ) / d < m + 1 / 2) : divRound n d = m := by
  have hd' : (0 : ℚ) < d := by exact_mod_cast hd
  refine divRound_of_bounds hd ?_ ?_ ?_
  · rw [le_div_iff₀ hd'] at hl
    have : (2 : ℚ) * (d * m) ≤ 2 * n + d := by linarith
    exact_mod_cast this
  · rw [div_le_iff₀ hd'] at hh
    have : (2 : ℚ) * n ≤ 2 * (d * m) + d := by linarith
    exact_mod_cast this
  · intro h
    obtain ⟨h1, h2⟩ := ho h
    rw [lt_div_iff₀ hd'] at h1
    rw [div_lt_iff₀ hd'] at h2
    have h1 : (2 : ℚ) * (d * m) < 2 * n + d := by linarith
    have h2 : (2 : ℚ) * n < 2 * (d * m) + d := by linarith
    exact ⟨by exact_mod_cast h1, by exact_mod_cast h2⟩

/-! ## Fields of a finite number -/

variable {x : Binary64}

/-- The mantissa is normal unless the exponent is the least one. -/
structure Normal (m : Nat) (e : ℤ) : Prop where
  mantissa_lt : m < 2 ^ 53
  least : -1074 ≤ e
  normal : -1074 < e → 2 ^ 52 ≤ m

theorem normal_fields (x : Binary64) : Normal x.mantissa x.exponent := by
  have hp := pow_eq 2 52
  have := x.fraction_eq
  have hf : x.fraction < 2 ^ 52 := by
    rw [x.fraction_eq]
    exact Nat.mod_lt _ (by decide)
  refine ⟨?_, ?_, ?_⟩
  · unfold mantissa
    split <;> omega
  · unfold exponent
    split <;> omega
  · unfold exponent mantissa
    split <;> omega

theorem magnitude_fields (x : Binary64) :
    (x.exponent + 1074).toNat * 2 ^ 52 + x.mantissa = x.magnitude := by
  have hp := pow_eq 2 52
  have hb := x.biased_eq
  have hf := x.fraction_eq
  unfold exponent mantissa
  split <;> omega

theorem exponent_le (h : x.isFinite = true) : x.exponent ≤ 971 := by
  have hb := x.biased_eq
  rw [isFinite_eq, infinityMagnitude_eq, decide_eq_true_eq] at h
  unfold exponent
  split <;> omega

theorem lowQuarters_eq (x : Binary64) :
    x.lowQuarters = 4 * x.mantissa - 2 ∨
      (x.lowQuarters = 4 * x.mantissa - 1 ∧ x.mantissa = 2 ^ 52 ∧ -1074 < x.exponent) := by
  have hp := pow_eq 2 52
  unfold lowQuarters quarters
  split
  · next h =>
    refine Or.inr ⟨rfl, ?_, ?_⟩
    · unfold mantissa
      split <;> omega
    · unfold exponent
      split <;> omega
  · exact Or.inl rfl

/-- Below a power of two the interval is shorter. -/
theorem lowQuarters_power (hm : x.mantissa = 2 ^ 52) (he : -1074 < x.exponent) :
    x.lowQuarters = 4 * x.mantissa - 1 := by
  have hp := pow_eq 2 52
  have hf : x.fraction = 0 ∧ 1 < x.biased := by
    unfold exponent at he
    unfold mantissa at hm
    split at he <;> split at hm <;> omega
  unfold lowQuarters quarters
  rw [if_pos hf]

/-! ## The interval of a number -/

/-- What rounds to a number: everything up to half way to its neighbours, these bounds only if its mantissa
is even. -/
structure Interval (x : Binary64) (v : ℚ) : Prop where
  low : x.lowQuarters * 2 ^ (x.exponent - 2) ≤ v
  high : v ≤ x.highQuarters * 2 ^ (x.exponent - 2)
  odd : x.mantissa % 2 = 1 →
    x.lowQuarters * 2 ^ (x.exponent - 2) < v ∧ v < x.highQuarters * 2 ^ (x.exponent - 2)

theorem quarter_eq (e : ℤ) : (2 : ℚ) ^ (e - 2) = 2 ^ e / 4 := by
  rw [sub_eq_add_neg, two_zpow_add]
  norm_num
  ring

/-- The bounds in units of the number. -/
theorem low_ge (hm : 0 < x.mantissa) :
    ((x.mantissa : ℚ) - 1 / 2) * 2 ^ x.exponent ≤ x.lowQuarters * 2 ^ (x.exponent - 2) := by
  have hp := two_zpow_pos x.exponent
  rw [quarter_eq]
  rcases x.lowQuarters_eq with h | ⟨h, -, -⟩
  · have hc : (x.lowQuarters : ℚ) = 4 * x.mantissa - 2 := by
      rw [h, Nat.cast_sub (by omega)]
      norm_num
    rw [hc]
    linarith
  · have hc : (x.lowQuarters : ℚ) = 4 * x.mantissa - 1 := by
      rw [h, Nat.cast_sub (by omega)]
      norm_num
    rw [hc]
    linarith

theorem high_eq (x : Binary64) :
    (x.highQuarters : ℚ) * 2 ^ (x.exponent - 2) = (x.mantissa + 1 / 2) * 2 ^ x.exponent := by
  rw [quarter_eq, highQuarters, quarters]
  push_cast
  ring

/-- The interval in units of the number. -/
theorem Interval.units {v : ℚ} (h : x.Interval v) (hm : 0 < x.mantissa) :
    (x.mantissa : ℚ) - 1 / 2 ≤ v / 2 ^ x.exponent ∧ v / 2 ^ x.exponent ≤ x.mantissa + 1 / 2 ∧
      (x.mantissa % 2 = 1 →
        (x.mantissa : ℚ) - 1 / 2 < v / 2 ^ x.exponent ∧ v / 2 ^ x.exponent < x.mantissa + 1 / 2) := by
  have hp := two_zpow_pos x.exponent
  have hl := low_ge hm
  have hh := x.high_eq
  refine ⟨?_, ?_, fun ho => ⟨?_, ?_⟩⟩
  · rw [le_div_iff₀ hp]
    exact hl.trans h.low
  · rw [div_le_iff₀ hp, ← hh]
    exact h.high
  · rw [lt_div_iff₀ hp]
    exact hl.trans_lt (h.odd ho).1
  · rw [div_lt_iff₀ hp, ← hh]
    exact (h.odd ho).2

theorem Interval.pos {v : ℚ} (h : x.Interval v) (hm : 0 < x.mantissa) : 0 < v := by
  have hp := two_zpow_pos x.exponent
  have hm' : (1 : ℚ) ≤ x.mantissa := by exact_mod_cast hm
  calc (0 : ℚ) < (x.mantissa - 1 / 2) * 2 ^ x.exponent := mul_pos (by linarith) hp
    _ ≤ x.lowQuarters * 2 ^ (x.exponent - 2) := low_ge hm
    _ ≤ v := h.low

/-! ## Rounding to the number of an interval -/

/-- A quotient with a lesser unit is so many times less. -/
theorem lt_of_unit_le {q : ℚ} {e e' k : ℤ} (hq : q < 2 ^ (53 : ℤ) * 2 ^ e) (hk : e + k ≤ e') :
    q < 2 ^ (53 - k) * 2 ^ e' :=
  calc q < 2 ^ (53 : ℤ) * 2 ^ e := hq
    _ = 2 ^ (53 - k) * 2 ^ (e + k) := by
      rw [← two_zpow_add, ← two_zpow_add, show 53 - k + (e + k) = 53 + e by ring]
    _ ≤ 2 ^ (53 - k) * 2 ^ e' := mul_le_mul_of_nonneg_left (two_zpow_le hk) (two_zpow_pos _).le

/-- The exponent of a quotient in the interval: that of the number, or one less just below a power of two. -/
theorem unitExponent_interval (hm : 0 < x.mantissa) (hn : 0 < num) (hd : 0 < den)
    (h : x.Interval ((num : ℚ) / den)) :
    unitExponent num den = x.exponent ∨
      (unitExponent num den + 1 = x.exponent ∧ x.mantissa = 2 ^ 52 ∧ -1074 < x.exponent) := by
  obtain ⟨hmin, hlt, hge⟩ := unitExponent_spec hn hd
  have hx := x.normal_fields
  obtain ⟨hl, hh, -⟩ := h.units hm
  have hp := two_zpow_pos x.exponent
  rw [le_div_iff₀ hp] at hl
  rw [div_le_iff₀ hp] at hh
  generalize unitExponent num den = e at *
  rcases lt_trichotomy e x.exponent with he | he | he
  · have hm52 : 2 ^ 52 ≤ x.mantissa := hx.normal (by omega)
    have hm52' : (2 : ℚ) ^ 52 ≤ x.mantissa := by exact_mod_cast hm52
    -- the quotient is below `2 ^ 52` units of the number, and it is half a unit below the mantissa at most
    have hle : x.mantissa ≤ 2 ^ 52 := by
      have h1 : ((x.mantissa : ℚ) - 1 / 2) * 2 ^ x.exponent < 2 ^ (53 - 1 : ℤ) * 2 ^ x.exponent :=
        hl.trans_lt (lt_of_unit_le hlt (by omega))
      have h2 : (x.mantissa : ℚ) - 1 / 2 < 2 ^ (53 - 1 : ℤ) := lt_of_mul_lt_mul_right h1 hp.le
      have h3 : (x.mantissa : ℚ) < ((2 ^ 52 + 1 : Nat) : ℚ) := by
        norm_num at h2
        push_cast
        linarith
      have h4 : x.mantissa < 2 ^ 52 + 1 := by exact_mod_cast h3
      omega
    refine Or.inr ⟨?_, by omega, by omega⟩
    by_contra hne
    have h1 : ((x.mantissa : ℚ) - 1 / 2) * 2 ^ x.exponent < 2 ^ (53 - 2 : ℤ) * 2 ^ x.exponent :=
      hl.trans_lt (lt_of_unit_le hlt (by omega))
    have h2 : (x.mantissa : ℚ) - 1 / 2 < 2 ^ (53 - 2 : ℤ) := lt_of_mul_lt_mul_right h1 hp.le
    norm_num at h2
    linarith
  · exact Or.inl he
  · have hp1 := two_zpow_le (show x.exponent + 1 ≤ e by omega)
    rw [two_zpow_succ] at hp1
    have h1 : (2 : ℚ) ^ 53 * 2 ^ x.exponent ≤ (x.mantissa + 1 / 2) * 2 ^ x.exponent :=
      calc (2 : ℚ) ^ 53 * 2 ^ x.exponent = 2 ^ 52 * (2 * 2 ^ x.exponent) := by ring
        _ ≤ 2 ^ (52 : ℤ) * 2 ^ e := by
          rw [show (2 : ℚ) ^ (52 : ℤ) = 2 ^ 52 by norm_num]
          exact mul_le_mul_of_nonneg_left hp1 (by norm_num)
        _ ≤ (num : ℚ) / den := hge (by have := hx.least; omega)
        _ ≤ (x.mantissa + 1 / 2) * 2 ^ x.exponent := hh
    have h2 := le_of_mul_le_mul_right h1 hp
    have h3 : (x.mantissa : ℚ) + 1 ≤ 2 ^ 53 := by exact_mod_cast hx.mantissa_lt
    linarith

/-- The pattern that a quotient in the interval is rounded to. -/
theorem rounded_interval (hm : 0 < x.mantissa) (hn : 0 < num) (hd : 0 < den)
    (h : x.Interval ((num : ℚ) / den)) :
    (unitExponent num den + 1074).toNat * 2 ^ 52 +
      divRound (scaled num den (unitExponent num den)).1 (scaled num den (unitExponent num den)).2 =
        x.magnitude := by
  have hs := @scaled_eq num den (unitExponent num den)
  have hpos := @scaled_snd_pos num den (unitExponent num den) hd
  have hlt := (unitExponent_spec hn hd).2.1
  have hmag := x.magnitude_fields
  have hleast := x.normal_fields.least
  have hp := two_zpow_pos (unitExponent num den)
  obtain he | ⟨he, hm52, hnorm⟩ := unitExponent_interval hm hn hd h
  · obtain ⟨hl, hh, ho⟩ := h.units hm
    rw [← he, ← hs] at hl hh ho
    rw [divRound_eq hpos hl hh ho, he]
    exact hmag
  · -- just below a power of two: `2 ^ 53` units of the smaller size
    have hlow := h.low
    rw [lowQuarters_power hm52 hnorm, hm52, quarter_eq, ← he, two_zpow_succ] at hlow
    have hl : ((2 ^ 53 : Nat) : ℚ) - 1 / 2 ≤ (scaled num den (unitExponent num den)).1 /
        (scaled num den (unitExponent num den)).2 := by
      rw [hs, le_div_iff₀ hp]
      refine le_trans (le_of_eq ?_) hlow
      norm_num
      ring
    have hh : ((scaled num den (unitExponent num den)).1 : ℚ) /
        (scaled num den (unitExponent num den)).2 ≤ ((2 ^ 53 : Nat) : ℚ) + 1 / 2 := by
      rw [hs, div_le_iff₀ hp]
      refine hlt.le.trans (mul_le_mul_of_nonneg_right ?_ hp.le)
      norm_num
    rw [divRound_eq hpos hl hh (by norm_num), ← hmag, hm52, ← he]
    have hn : (unitExponent num den + 1 + 1074).toNat = (unitExponent num den + 1074).toNat + 1 := by omega
    rw [hn]
    ring

theorem ofRatio_interval (hf : x.isFinite = true) (hm : 0 < x.mantissa) (hd : 0 < den)
    (h : x.Interval ((num : ℚ) / den)) (b : Bool) : ofRatio b num den = ofMagnitude b x.magnitude := by
  have hn : 0 < num := by
    have := h.pos hm
    rcases Nat.eq_zero_or_pos num with rfl | hn
    · simp at this
    · exact hn
  rw [isFinite_eq, decide_eq_true_eq] at hf
  unfold ofRatio
  rw [if_neg (by omega)]
  dsimp only
  rw [pow_eq, rounded_interval hm hn hd h, min_eq_right hf.le]

end Erd.Binary64
