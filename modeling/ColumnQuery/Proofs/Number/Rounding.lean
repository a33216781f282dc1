/-
  Rounding to the nearest double.

  The model of doubles rounds a fraction by shifting it to the exponent that the result will have,
  with two more bits for what is dropped. The bits say how the rest of the fraction compares with a
  half (`fraction`), so the shifted fraction is rounded to the nearest whole number, and to the
  even one of two (`nearest`). A double is what every number of its interval is rounded to
  (`Near`, `roundWithAccuracy_near`): half a unit of its last place to both sides, but only a
  quarter below a power of two, where doubles lie closer.
-/
import ColumnQuery.Proofs.Number.Whole
import Mathlib.Algebra.Order.Field.Power
import Mathlib.Tactic.FieldSimp
import Mathlib.Tactic.Linarith
import Mathlib.Tactic.Ring

namespace ColumnQuery

namespace Number

open Float.Model

/-! ## Fractions -/

variable {n d : Nat}

/-- The whole number nearest to a fraction, the even one of two. -/
def nearest (n d : Nat) : Nat :=
  if 2 * (n % d) < d then n / d
  else if 2 * (n % d) = d then n / d + n / d % 2
  else n / d + 1

/-- A fraction: its whole part, whether the rest is a half or more, and whether the rest is neither
    nothing nor a half. -/
def fraction (n d : Nat) : UnpackedFloat.ExtendedMantissa :=
  ⟨n / d, decide (d ≤ 2 * (n % d)), decide (2 * (n % d) ≠ 0 ∧ 2 * (n % d) ≠ d)⟩

theorem fraction_of_accuracy (hd : 0 < d) :
    UnpackedFloat.ExtendedMantissa.ofMantissaAndAccuracy (n / d)
      (UnpackedFloat.accuracyOfFraction (n % d) d) = fraction n d := by
  unfold UnpackedFloat.accuracyOfFraction fraction
  split
  next hzero => simp [UnpackedFloat.ExtendedMantissa.ofMantissaAndAccuracy, hzero, hd.ne']
  next hrest =>
    have hrest' : 2 * (n % d) ≠ 0 := by omega
    rcases Nat.lt_trichotomy (2 * (n % d)) d with hlt | heq | hgt
    · rw [Nat.compare_eq_lt.2 hlt]
      simp [UnpackedFloat.ExtendedMantissa.ofMantissaAndAccuracy, hlt, hlt.ne, hrest]
    · rw [Nat.compare_eq_eq.2 heq]
      simp [UnpackedFloat.ExtendedMantissa.ofMantissaAndAccuracy, heq]
    · rw [Nat.compare_eq_gt.2 hgt]
      simp [UnpackedFloat.ExtendedMantissa.ofMantissaAndAccuracy, hgt.le, hgt.ne', hrest]

theorem shiftRightOne_fraction (hd : 0 < d) :
    (fraction n d).shiftRightOne = fraction n (d * 2) := by
  have hdiv : n / (d * 2) = n / d / 2 := (Nat.div_div_eq_div_mul n d 2).symm
  have hmod : n % (d * 2) = n % d + d * (n / d % 2) := Nat.mod_mul
  have hrest : n % d < d := Nat.mod_lt n hd
  unfold fraction UnpackedFloat.ExtendedMantissa.shiftRightOne
  rw [hdiv, hmod, UnpackedFloat.ExtendedMantissa.mk.injEq]
  refine ⟨rfl, ?_, ?_⟩
  · rcases Nat.mod_two_eq_zero_or_one (n / d) with hbit | hbit
    · rw [hbit, Nat.mul_zero]
      simp
      omega
    · rw [hbit, Nat.mul_one]
      simp
      omega
  · rw [← Bool.decide_or, decide_eq_decide]
    rcases Nat.mod_two_eq_zero_or_one (n / d) with hbit | hbit
    · rw [hbit, Nat.mul_zero]
      omega
    · rw [hbit, Nat.mul_one]
      omega

theorem shift_fraction (hd : 0 < d) (k : Nat) : fraction n d >>> k = fraction n (d * 2 ^ k) := by
  show k.repeat UnpackedFloat.ExtendedMantissa.shiftRightOne (fraction n d) = _
  induction k with
  | zero => rw [Nat.pow_zero, Nat.mul_one]; rfl
  | succ k ih =>
    rw [Nat.repeat, ih, shiftRightOne_fraction (Nat.mul_pos hd (Nat.two_pow_pos k)), Nat.mul_assoc,
      Nat.pow_succ]

theorem roundedMantissa_fraction (hd : 0 < d) : (fraction n d).roundedMantissa = nearest n d := by
  have hrest : n % d < d := Nat.mod_lt n hd
  rw [← fraction_of_accuracy hd]
  unfold nearest UnpackedFloat.accuracyOfFraction
  split
  next hzero =>
    rw [hzero, if_pos (by omega)]
    rfl
  next hrest =>
    rcases Nat.lt_trichotomy (2 * (n % d)) d with hlt | heq | hgt
    · rw [Nat.compare_eq_lt.2 hlt, if_pos hlt]
      rfl
    · rw [Nat.compare_eq_eq.2 heq, if_neg (by omega), if_pos heq]
      rfl
    · rw [Nat.compare_eq_gt.2 hgt, if_neg (by omega), if_neg (by omega)]
      rfl

/-- A fraction within half a unit of a whole number, and closer to an odd one. -/
theorem nearest_eq {m : Nat} (hd : 0 < d) (hlow : 2 * (d * m) ≤ 2 * n + d)
    (hhigh : 2 * n ≤ 2 * (d * m) + d)
    (hodd : m % 2 = 1 → 2 * (d * m) < 2 * n + d ∧ 2 * n < 2 * (d * m) + d) : nearest n d = m := by
  have hn : n = d * (n / d) + n % d := (Nat.div_add_mod n d).symm
  have hrest : n % d < d := Nat.mod_lt n hd
  have hle : n / d ≤ m := by
    by_contra hlt
    have hmul : d * (m + 1) ≤ d * (n / d) := Nat.mul_le_mul_left d (by omega)
    rw [Nat.mul_succ] at hmul
    omega
  have hge : m ≤ n / d + 1 := by
    by_contra hlt
    have hmul : d * (n / d + 1 + 1) ≤ d * m := Nat.mul_le_mul_left d (by omega)
    rw [Nat.mul_succ, Nat.mul_succ] at hmul
    omega
  unfold nearest
  rcases Nat.eq_or_lt_of_le hle with heq | hlt
  · rw [heq] at hn ⊢
    split
    · rfl
    · rw [if_pos (by omega)]
      omega
  · obtain rfl : m = n / d + 1 := by omega
    rw [Nat.mul_succ] at hlow hodd
    rw [if_neg (by omega)]
    split <;> omega

/-! ## Doubles -/

/-- The mantissa and the exponent of a positive number that has been rounded. Exponents have no
    upper bound yet. -/
structure IsRounded (m : Nat) (q : Int) : Prop where
  pos : 0 < m
  lt : m < 2 ^ 53
  least : -1074 ≤ q
  leading : 2 ^ 52 ≤ m ∨ q = -1074

/-- The mantissa and the exponent of a positive double. -/
structure IsDouble (m : Nat) (q : Int) : Prop extends IsRounded m q where
  most : q ≤ 971

/-- The distance to the end of the interval below a double, in quarters of its last place. -/
def below (m : Nat) (q : Int) : Nat := if m = 2 ^ 52 ∧ -1074 < q then 1 else 2

/-- A number in the interval of a double, whose ends count for even mantissas. -/
structure Near (m : Nat) (q : Int) (x : Rat) : Prop where
  low : (4 * m - below m q) * 2 ^ (q - 2) ≤ x
  high : x ≤ (4 * m + 2) * 2 ^ (q - 2)
  odd : m % 2 = 1 → (4 * m - below m q) * 2 ^ (q - 2) < x ∧ x < (4 * m + 2) * 2 ^ (q - 2)

variable {m k : Nat} {q e : Int} {x : Rat}

theorem below_pos (m : Nat) (q : Int) : 0 < below m q := by
  unfold below
  split <;> decide

theorem below_le (m : Nat) (q : Int) : below m q ≤ 2 := by
  unfold below
  split <;> decide

/-- The target exponent of a mantissa. -/
theorem targetExponent_eq (k : Nat) (e : Int) :
    Format.binary64.targetExponent (totalExponent k e) = max (k.log2 + e - 52) (-1074) := by
  unfold totalExponent Format.targetExponent Format.minExponent Format.mantissaBits
  simp
  omega

/-- A mantissa that needs no rounding. -/
theorem shift_exact {j : Nat} (h : max (((m * 2 ^ j).log2 : Int) + e - 52) (-1074) - e ≤ j)
    (hj : j = 0 ∨ (j : Int) ≤ max (((m * 2 ^ j).log2 : Int) + e - 52) (-1074) - e) :
    UnpackedFloat.shiftToTargetExponent Format.binary64 (m * 2 ^ j) e .exact
      = (⟨m, false, false⟩, e + j) := by
  have hamount : (max (((m * 2 ^ j).log2 : Int) + e - 52) (-1074) - e).toNat = j := by omega
  unfold UnpackedFloat.shiftToTargetExponent UnpackedFloat.shiftToExponent
  dsimp only
  rw [targetExponent_eq, hamount]
  exact congrArg (·, e + (j : Int)) (repeat_shiftRightOne m j)

/-- A fraction is shifted to the target exponent of its whole part. -/
theorem shift_of_fraction (hd : 0 < d) {s : Nat}
    (hs : (max (((n / d).log2 : Int) + e - 52) (-1074) - e).toNat = s) :
    UnpackedFloat.shiftToTargetExponent Format.binary64 (n / d) e
      (UnpackedFloat.accuracyOfFraction (n % d) d) = (fraction n (d * 2 ^ s), e + s) := by
  unfold UnpackedFloat.shiftToTargetExponent UnpackedFloat.shiftToExponent
  dsimp only
  rw [targetExponent_eq, hs, fraction_of_accuracy hd, shift_fraction hd]

/-! ## Rounding -/

theorem two_zpow_pos (e : Int) : (0 : Rat) < 2 ^ e := zpow_pos (by norm_num) e

theorem two_zpow_lt {e f : Int} : (2 : Rat) ^ e < 2 ^ f ↔ e < f :=
  zpow_lt_zpow_iff_right₀ (by norm_num)

theorem two_zpow_le {e f : Int} : (2 : Rat) ^ e ≤ 2 ^ f ↔ e ≤ f :=
  zpow_le_zpow_iff_right₀ (by norm_num)

/-- A fraction in quarters of the last place at another exponent. -/
theorem value_eq (hd : 0 < d) {s : Nat} {f : Int} (hs : e + s = f) :
    (n : Rat) / d * 2 ^ e = 4 * n / (d * 2 ^ s : Nat) * 2 ^ (f - 2) := by
  have hd' : (d : Rat) ≠ 0 := by
    have : (0 : Rat) < d := by exact_mod_cast hd
    exact this.ne'
  have hpow : (2 : Rat) ^ (f - 2) = 2 ^ e * 2 ^ s / 4 := by
    rw [← hs, zpow_sub₀ (by norm_num), zpow_add₀ (by norm_num), zpow_natCast]
    norm_num
  rw [hpow]
  push_cast
  field_simp

/-- The bounds of an interval, in quarters of the last place. -/
theorem Near.quarters {y : Rat} (h : Near m q (y * 2 ^ (q - 2))) :
    4 * m - below m q ≤ y ∧ y ≤ 4 * m + 2 ∧
      (m % 2 = 1 → 4 * m - below m q < y ∧ y < 4 * m + 2) := by
  have hpow := two_zpow_pos (q - 2)
  refine ⟨le_of_mul_le_mul_right h.low hpow, le_of_mul_le_mul_right h.high hpow, fun hm => ?_⟩
  obtain ⟨hlow, hhigh⟩ := h.odd hm
  exact ⟨lt_of_mul_lt_mul_right hlow hpow.le, lt_of_mul_lt_mul_right hhigh hpow.le⟩

theorem Near.nearest_eq (hd : 0 < d) (h : Near m q (4 * n / d * 2 ^ (q - 2))) :
    nearest n d = m := by
  obtain ⟨hlow, hhigh, hodd⟩ := h.quarters
  have hd' : (0 : Rat) < d := by exact_mod_cast hd
  have hbelow : (below m q : Rat) ≤ 2 := by exact_mod_cast below_le m q
  rw [le_div_iff₀ hd'] at hlow
  rw [div_le_iff₀ hd'] at hhigh
  have hlow' : (2 * (d * m) : Rat) ≤ 2 * n + d := by nlinarith
  have hhigh' : (2 * n : Rat) ≤ 2 * (d * m) + d := by nlinarith
  refine Number.nearest_eq hd (by exact_mod_cast hlow') (by exact_mod_cast hhigh') fun hm => ?_
  obtain ⟨hlow, hhigh⟩ := hodd hm
  rw [lt_div_iff₀ hd'] at hlow
  rw [div_lt_iff₀ hd'] at hhigh
  have hlow' : (2 * (d * m) : Rat) < 2 * n + d := by nlinarith
  have hhigh' : (2 * n : Rat) < 2 * (d * m) + d := by nlinarith
  exact ⟨by exact_mod_cast hlow', by exact_mod_cast hhigh'⟩

/-- A fraction lies between the powers of two around its whole part. -/
theorem fraction_lt (hd : 0 < d) (e : Int) :
    (n : Rat) / d * 2 ^ e < 2 ^ (((n / d).log2 : Int) + 1 + e) := by
  have hd' : (0 : Rat) < d := by exact_mod_cast hd
  have hn : n < 2 ^ ((n / d).log2 + 1) * d := by
    have := Nat.lt_mul_div_succ n hd
    calc n < d * (n / d + 1) := this
      _ ≤ d * 2 ^ ((n / d).log2 + 1) := Nat.mul_le_mul_left _ Nat.lt_log2_self
      _ = _ := Nat.mul_comm _ _
  have hlt : (n : Rat) / d < 2 ^ ((n / d).log2 + 1) := by
    rw [div_lt_iff₀ hd']
    exact_mod_cast hn
  rw [zpow_add₀ (by norm_num)]
  exact mul_lt_mul_of_pos_right (by exact_mod_cast hlt) (two_zpow_pos e)

theorem le_fraction (hd : 0 < d) (hn : n / d ≠ 0) (e : Int) :
    (2 : Rat) ^ (((n / d).log2 : Int) + e) ≤ (n : Rat) / d * 2 ^ e := by
  have hd' : (0 : Rat) < d := by exact_mod_cast hd
  have hle : (2 : Rat) ^ (n / d).log2 ≤ (n : Rat) / d := by
    rw [le_div_iff₀ hd']
    exact_mod_cast (Nat.mul_le_mul_right d (Nat.log2_self_le hn)).trans (Nat.div_mul_le_self n d)
  rw [zpow_add₀ (by norm_num), zpow_natCast]
  exact mul_le_mul_of_nonneg_right hle (two_zpow_pos e).le

/-- A power of two below the interval of a double. -/
theorem Near.pow_le (h : Near m q x) (hk : 2 ^ k + below m q ≤ 4 * m) :
    (2 : Rat) ^ (q - 2 + k) ≤ x := by
  have hle : (2 : Rat) ^ k ≤ 4 * m - below m q := by
    rw [le_sub_iff_add_le]
    exact_mod_cast hk
  calc (2 : Rat) ^ (q - 2 + k) = 2 ^ k * 2 ^ (q - 2) := by
        rw [zpow_add₀ (by norm_num), zpow_natCast, mul_comm]
    _ ≤ (4 * m - below m q) * 2 ^ (q - 2) := mul_le_mul_of_nonneg_right hle (two_zpow_pos _).le
    _ ≤ x := h.low

/-- A power of two above the interval of a double. -/
theorem Near.lt_pow (h : Near m q x) (hk : 4 * m + 2 < 2 ^ k) : x < 2 ^ (q - 2 + k) := by
  have hlt : (4 * m + 2 : Rat) < 2 ^ k := by exact_mod_cast hk
  calc x ≤ (4 * m + 2) * 2 ^ (q - 2) := h.high
    _ < 2 ^ k * 2 ^ (q - 2) := mul_lt_mul_of_pos_right hlt (two_zpow_pos _)
    _ = (2 : Rat) ^ (q - 2 + k) := by rw [zpow_add₀ (by norm_num), zpow_natCast, mul_comm]

/-- The exponent that a number of the interval of a double is rounded at. Below a power of two it is
    one less than the exponent of the double. -/
theorem targetExponent_near (hm : IsRounded m q) (hd : 0 < d)
    (hbits : 52 ≤ (n / d).log2 ∨ e ≤ -1074) (hx : Near m q (n / d * 2 ^ e)) :
    max (((n / d).log2 : Int) + e - 52) (-1074) = q ∨
      max (((n / d).log2 : Int) + e - 52) (-1074) = q - 1 ∧ m = 2 ^ 52 ∧ -1074 < q := by
  have hlt := fraction_lt (n := n) hd e
  have hleast := hm.least
  have hbelow := below_le m q
  have hmost : max (((n / d).log2 : Int) + e - 52) (-1074) ≤ q := by
    by_contra hgt
    have hzero : n / d ≠ 0 := by
      intro heq
      rw [heq] at hbits hgt
      simp only [Nat.log2_zero] at hbits hgt
      omega
    have hhigh := hx.lt_pow (k := 55) (by have := hm.lt; omega)
    have := two_zpow_lt.1 ((le_fraction hd hzero e).trans_lt hhigh)
    omega
  by_cases hsmall : q = -1074
  · exact .inl (by omega)
  · have hleading : 2 ^ 52 ≤ m := hm.leading.resolve_right hsmall
    by_cases hpower : m = 2 ^ 52
    · have := two_zpow_lt.1 ((hx.pow_le (k := 53) (by omega)).trans_lt hlt)
      omega
    · have := two_zpow_lt.1 ((hx.pow_le (k := 54) (by omega)).trans_lt hlt)
      omega

/-- Just below a power of two a number is rounded up at the lower exponent. -/
theorem Near.nearest_power (hd : 0 < d) (hq : -1074 < q)
    (h : Near (2 ^ 52) q (4 * n / d * 2 ^ (q - 1 - 2)))
    (hlt : (4 * n / d * 2 ^ (q - 1 - 2) : Rat) < 2 ^ (q + 52)) : nearest n d = 2 ^ 52 * 2 ^ 1 := by
  have hd' : (0 : Rat) < d := by exact_mod_cast hd
  have hpow := two_zpow_pos (q - 1 - 2)
  have hbelow : below (2 ^ 52) q = 1 := if_pos ⟨rfl, hq⟩
  have hlow : (2 ^ 55 - 2 : Rat) * d ≤ 4 * n := by
    rw [← le_div_iff₀ hd']
    refine le_of_mul_le_mul_right ?_ hpow
    refine le_trans (le_of_eq ?_) h.low
    rw [hbelow, show q - 2 = q - 1 - 2 + 1 by ring, zpow_add₀ (by norm_num)]
    push_cast
    ring
  have hhigh : (4 * n : Rat) < 2 ^ 55 * d := by
    rw [← div_lt_iff₀ hd']
    refine lt_of_mul_lt_mul_right (hlt.trans_le (le_of_eq ?_)) hpow.le
    rw [show q + 52 = 55 + (q - 1 - 2) by ring, zpow_add₀ (by norm_num)]
    norm_num
  have hlow' : 2 ^ 55 * d ≤ 4 * n + 2 * d := by
    have : (2 ^ 55 * d : Rat) ≤ 4 * n + 2 * d := by linarith
    exact_mod_cast this
  have hhigh' : 4 * n < 2 ^ 55 * d := by exact_mod_cast hhigh
  exact Number.nearest_eq hd (by omega) (by omega) (by omega)

/-- A number of the interval of a double is rounded to it. -/
theorem roundWithAccuracy_near (hm : IsRounded m q) (hd : 0 < d)
    (hbits : 52 ≤ (n / d).log2 ∨ e ≤ -1074) (hx : Near m q (n / d * 2 ^ e))
    (sign : UnpackedFloat.Sign) :
    UnpackedFloat.roundWithAccuracy Format.binary64 sign (n / d) e
      (UnpackedFloat.accuracyOfFraction (n % d) d) = .finite sign m q hm.pos := by
  have hleast := hm.least
  have htarget := targetExponent_near hm hd hbits hx
  obtain ⟨s, hs⟩ : ∃ s : Nat, e + s = max (((n / d).log2 : Int) + e - 52) (-1074) := by
    refine ⟨(max (((n / d).log2 : Int) + e - 52) (-1074) - e).toNat, ?_⟩
    omega
  have hshift := shift_of_fraction (n := n) (e := e) hd (s := s) (by omega)
  have hpos : 0 < d * 2 ^ s := Nat.mul_pos hd (Nat.two_pow_pos s)
  rcases htarget with hq | ⟨hq, rfl, hq'⟩
  · have hexponent : e + s = q := hs.trans hq
    have hnearest : nearest n (d * 2 ^ s) = m := by
      rw [value_eq hd hexponent] at hx
      exact hx.nearest_eq hpos
    have hlog : m.log2 ≤ 52 := by
      have := (Nat.log2_lt (Nat.pos_iff_ne_zero.1 hm.pos)).2 hm.lt
      omega
    have hagain : UnpackedFloat.shiftToTargetExponent Format.binary64
        (fraction n (d * 2 ^ s)).roundedMantissa (e + s) .exact = (⟨m, false, false⟩, q) := by
      rw [roundedMantissa_fraction hpos, hnearest, hexponent]
      simpa using shift_exact (m := m) (e := q) (j := 0) (by simp; omega) (.inl rfl)
    exact roundWithAccuracy_eq sign hshift hagain hm.pos
  · -- just below a power of two the mantissa is rounded up to one bit more
    have hexponent : e + s = q - 1 := hs.trans hq
    have hnearest : nearest n (d * 2 ^ s) = 2 ^ 52 * 2 ^ 1 := by
      have hlt := (fraction_lt (n := n) hd e).trans_le
        (two_zpow_le.2 (by omega : ((n / d).log2 : Int) + 1 + e ≤ q + 52))
      rw [value_eq hd hexponent] at hx hlt
      exact hx.nearest_power hpos hq' hlt
    have hlog : (2 ^ 52 * 2 ^ 1).log2 = 53 := by decide +kernel
    have hagain : UnpackedFloat.shiftToTargetExponent Format.binary64
        (fraction n (d * 2 ^ s)).roundedMantissa (e + s) .exact = (⟨2 ^ 52, false, false⟩, q) := by
      rw [roundedMantissa_fraction hpos, hnearest, hexponent,
        shift_exact (m := 2 ^ 52) (e := q - 1) (j := 1) (by omega) (.inr (by omega)),
        Int.natCast_one, Int.sub_add_cancel]
    exact roundWithAccuracy_eq sign hshift hagain hm.pos

/-- Up to half the least double a number is rounded to zero. -/
theorem roundWithAccuracy_zero (hd : 0 < d) (hbits : 52 ≤ (n / d).log2 ∨ e ≤ -1074)
    (hx : (n : Rat) / d * 2 ^ e ≤ 2 ^ (-1075 : Int)) (sign : UnpackedFloat.Sign) :
    UnpackedFloat.roundWithAccuracy Format.binary64 sign (n / d) e
      (UnpackedFloat.accuracyOfFraction (n % d) d) = .zero sign := by
  have hsmall : n / d ≠ 0 → ((n / d).log2 : Int) + e ≤ -1075 := fun hne =>
    two_zpow_le.1 ((le_fraction hd hne e).trans hx)
  have hleast : e ≤ -1074 := by
    by_cases hzero : n / d = 0
    · rw [hzero, Nat.log2_zero] at hbits
      omega
    · have := hsmall hzero
      omega
  have htarget : max (((n / d).log2 : Int) + e - 52) (-1074) = -1074 := by
    by_cases hzero : n / d = 0
    · rw [hzero, Nat.log2_zero]
      omega
    · have := hsmall hzero
      omega
  obtain ⟨s, hs⟩ : ∃ s : Nat, e + s = -1074 := ⟨(-1074 - e).toNat, by omega⟩
  have hshift := shift_of_fraction (n := n) (e := e) hd (s := s) (by omega)
  have hpos : 0 < d * 2 ^ s := Nat.mul_pos hd (Nat.two_pow_pos s)
  have hnearest : nearest n (d * 2 ^ s) = 0 := by
    have hpos' : (0 : Rat) < (d * 2 ^ s : Nat) := by exact_mod_cast hpos
    have hhalf : 2 * n ≤ d * 2 ^ s := by
      rw [value_eq hd hs, show (-1075 : Int) = 1 + (-1074 - 2) from rfl, zpow_add₀ two_ne_zero,
        zpow_one] at hx
      have hle := le_of_mul_le_mul_right hx (two_zpow_pos _)
      rw [div_le_iff₀ hpos'] at hle
      have hle : (2 * n : Rat) ≤ (d * 2 ^ s : Nat) := by linarith
      exact_mod_cast hle
    exact nearest_eq hpos (by omega) (by omega) (by omega)
  have hagain : UnpackedFloat.shiftToTargetExponent Format.binary64
      (fraction n (d * 2 ^ s)).roundedMantissa (e + s) .exact = (⟨0, false, false⟩, -1074) := by
    rw [roundedMantissa_fraction hpos, hnearest, hs]
    exact shift_exact (m := 0) (e := -1074) (j := 0) (by decide) (.inl rfl)
  unfold UnpackedFloat.roundWithAccuracy
  rw [hshift]
  dsimp only
  rw [hagain]
  rfl

end Number

end ColumnQuery
