/-
  Numerals read as doubles.

  A numeral is read as a product or a quotient of two numbers that are known exactly, and only the
  result is rounded. So it is read as the double of whose interval it is (`mul_near`, `div_near`,
  `magnitude_near`), as infinity if that is none, and up to half the least double as zero
  (`magnitude_zero`). A small coefficient and a small power of ten are doubles themselves, and the
  product or the quotient of doubles is the one of the numbers that they stand for.
-/
import ColumnQuery.Proofs.Number.Negated
import ColumnQuery.Proofs.Number.Rounding

namespace ColumnQuery

namespace Number

open Float.Model

variable {m m₁ m₂ : Nat} {q e₁ e₂ : Int}

/-! ## Products and quotients -/

theorem mul_near (hm : IsRounded m q) {h₁ : 0 < m₁} {h₂ : 0 < m₂} (hbits : 2 ^ 52 ≤ m₁)
    (hx : Near m q (m₁ * 2 ^ e₁ * (m₂ * 2 ^ e₂))) :
    UnpackedFloat.mul Format.binary64 (.finite .positive m₁ e₁ h₁) (.finite .positive m₂ e₂ h₂)
      = .finite .positive m q hm.pos := by
  have hvalue : ((m₁ * m₂ : Nat) : Rat) / (1 : Nat) * 2 ^ (e₁ + e₂)
      = m₁ * 2 ^ e₁ * (m₂ * 2 ^ e₂) := by
    rw [zpow_add₀ (by norm_num)]
    push_cast
    ring
  have hlog : 52 ≤ (m₁ * m₂ / 1).log2 := by
    rw [Nat.div_one, Nat.le_log2 (Nat.mul_pos h₁ h₂).ne']
    exact hbits.trans (Nat.le_mul_of_pos_right _ h₂)
  have hround := roundWithAccuracy_near hm Nat.one_pos (.inl hlog) (hvalue ▸ hx) .positive
  rwa [Nat.div_one, Nat.mod_one] at hround

/-- A quotient is a fraction with bits enough, and rounded once. -/
theorem div_eq (h₁ : 0 < m₁) (h₂ : 0 < m₂) (e₁ e₂ : Int) : ∃ (n : Nat) (t : Int),
    UnpackedFloat.div Format.binary64 (.finite .positive m₁ e₁ h₁) (.finite .positive m₂ e₂ h₂)
      = UnpackedFloat.roundWithAccuracy Format.binary64 .positive (n / m₂) t
          (UnpackedFloat.accuracyOfFraction (n % m₂) m₂) ∧
    (n : Rat) / m₂ * 2 ^ t = m₁ * 2 ^ e₁ / (m₂ * 2 ^ e₂) ∧
    (52 ≤ (n / m₂).log2 ∨ t ≤ -1074) := by
  generalize htarget : min (e₁ - e₂) (Format.binary64.targetExponent
    (totalExponent m₁ e₁ - totalExponent m₂ e₂)) = t
  generalize hshift : (e₁ - e₂ - t).toNat = s
  have hexponent : t + s = e₁ - e₂ := by omega
  refine ⟨m₁ * 2 ^ s, t, ?_, ?_, ?_⟩
  · rw [← Nat.shiftLeft_eq, ← hshift, ← htarget]
    rfl
  · have hpow : (2 : Rat) ^ e₁ = 2 ^ s * 2 ^ t * 2 ^ e₂ := by
      rw [← zpow_natCast, ← zpow_add₀ (by norm_num), ← zpow_add₀ (by norm_num)]
      congr 1
      omega
    have h₂' : (m₂ : Rat) ≠ 0 := by exact_mod_cast h₂.ne'
    have htwo := (two_zpow_pos e₂).ne'
    rw [hpow]
    push_cast
    field_simp
  · have hquotient : Format.binary64.targetExponent (totalExponent m₁ e₁ - totalExponent m₂ e₂)
        = max (m₁.log2 + e₁ - (m₂.log2 + e₂) - 53) (-1074) := by
      unfold totalExponent Format.targetExponent Format.minExponent Format.mantissaBits
      simp
      omega
    rw [hquotient] at htarget
    by_cases hmin : t ≤ -1074
    · exact .inr hmin
    · have hwide : 53 + m₂.log2 ≤ m₁.log2 + s := by omega
      have hle : 2 ^ 52 ≤ m₁ * 2 ^ s / m₂ := by
        rw [Nat.le_div_iff_mul_le h₂]
        calc 2 ^ 52 * m₂ ≤ 2 ^ 52 * 2 ^ (m₂.log2 + 1) :=
              Nat.mul_le_mul_left _ Nat.lt_log2_self.le
          _ = 2 ^ (53 + m₂.log2) := by rw [← Nat.pow_add]; congr 1; omega
          _ ≤ 2 ^ (m₁.log2 + s) := Nat.pow_le_pow_right (by decide) hwide
          _ ≤ m₁ * 2 ^ s := by
              rw [Nat.pow_add]
              exact Nat.mul_le_mul_right _ (Nat.log2_self_le h₁.ne')
      exact .inl ((Nat.le_log2 (by omega)).2 hle)

theorem div_near (hm : IsRounded m q) {h₁ : 0 < m₁} {h₂ : 0 < m₂}
    (hx : Near m q (m₁ * 2 ^ e₁ / (m₂ * 2 ^ e₂))) :
    UnpackedFloat.div Format.binary64 (.finite .positive m₁ e₁ h₁) (.finite .positive m₂ e₂ h₂)
      = .finite .positive m q hm.pos := by
  obtain ⟨n, t, hdiv, hvalue, hbits⟩ := div_eq h₁ h₂ e₁ e₂
  rw [hdiv]
  exact roundWithAccuracy_near hm h₂ hbits (hvalue ▸ hx) .positive

theorem div_zero {h₁ : 0 < m₁} {h₂ : 0 < m₂}
    (hx : (m₁ * 2 ^ e₁ / (m₂ * 2 ^ e₂) : Rat) ≤ 2 ^ (-1075 : Int)) :
    UnpackedFloat.div Format.binary64 (.finite .positive m₁ e₁ h₁) (.finite .positive m₂ e₂ h₂)
      = .zero .positive := by
  obtain ⟨n, t, hdiv, hvalue, hbits⟩ := div_eq h₁ h₂ e₁ e₂
  rw [hdiv]
  exact roundWithAccuracy_zero h₂ hbits (hvalue ▸ hx) .positive

variable {x y : Float}

theorem mul_float (hm : IsRounded m q) {h₁ : 0 < m₁} {h₂ : 0 < m₂}
    (hx : x.toModel.unpack = .finite .positive m₁ e₁ h₁)
    (hy : y.toModel.unpack = .finite .positive m₂ e₂ h₂) (hbits : 2 ^ 52 ≤ m₁)
    (hnear : Near m q (m₁ * 2 ^ e₁ * (m₂ * 2 ^ e₂))) :
    x * y = Float.ofModel (pack (.finite .positive m q hm.pos)) := by
  show Float.ofModel (pack (UnpackedFloat.mul _ x.toModel.unpack y.toModel.unpack)) = _
  rw [hx, hy, mul_near hm hbits hnear]

theorem div_float (hm : IsRounded m q) {h₁ : 0 < m₁} {h₂ : 0 < m₂}
    (hx : x.toModel.unpack = .finite .positive m₁ e₁ h₁)
    (hy : y.toModel.unpack = .finite .positive m₂ e₂ h₂)
    (hnear : Near m q (m₁ * 2 ^ e₁ / (m₂ * 2 ^ e₂))) :
    x / y = Float.ofModel (pack (.finite .positive m q hm.pos)) := by
  show Float.ofModel (pack (UnpackedFloat.div _ x.toModel.unpack y.toModel.unpack)) = _
  rw [hx, hy, div_near hm hnear]

/-! ## Powers of ten -/

/-- A power with its denominator cleared. -/
theorem zpow_mul_toNat {b : Rat} (hb : b ≠ 0) (e : Int) : b ^ e * b ^ (-e).toNat = b ^ e.toNat := by
  rw [← zpow_natCast, ← zpow_natCast, ← zpow_add₀ hb]
  congr 1
  omega

/-- Whether an unpacked double is a power of ten. -/
def isPowerOfTen (k : Nat) : UnpackedFloat → Bool
  | .finite .positive m e _ => m * 2 ^ e.toNat == 10 ^ k * 2 ^ (-e).toNat
  | _ => false

theorem unpack_of_isPowerOfTen {k : Nat} {u : UnpackedFloat} (h : isPowerOfTen k u = true) :
    ∃ m e, ∃ hm : 0 < m, u = .finite .positive m e hm ∧ (m : Rat) * 2 ^ e = 10 ^ k := by
  cases u with
  | notANumber => cases h
  | infinity => cases h
  | zero => cases h
  | finite s m e hm =>
    cases s with
    | negative => cases h
    | positive =>
      refine ⟨m, e, hm, rfl, ?_⟩
      have hnat : m * 2 ^ e.toNat = 10 ^ k * 2 ^ (-e).toNat := beq_iff_eq.1 h
      have hpow : (2 : Rat) ^ (-e).toNat ≠ 0 := pow_ne_zero _ (by norm_num)
      have heq : (m : Rat) * 2 ^ e.toNat = 10 ^ k * 2 ^ (-e).toNat := by exact_mod_cast hnat
      refine mul_right_cancel₀ hpow ?_
      rw [mul_assoc, zpow_mul_toNat (by norm_num), heq]

/-- The small powers of ten are doubles. -/
theorem isPowerOfTen_exact : ∀ k : Fin 23,
    isPowerOfTen k (Float.exactlyRepresentablePowersOfTen[k]).toModel.unpack = true := by
  decide +kernel

/-! ## Numerals -/

theorem lt_pow_digitCount (n : Nat) : n < 10 ^ Decimal.digitCount n :=
  (Nat.length_toDigits_le_iff (by decide) Nat.length_toDigits_pos).1 le_rfl

theorem pow_digitCount_le {n : Nat} (hn : 0 < n) : 10 ^ (Decimal.digitCount n - 1) ≤ n := by
  by_contra hlt
  rcases Nat.eq_zero_or_pos (Decimal.digitCount n - 1) with hzero | hpos
  · rw [hzero] at hlt
    omega
  · have := (Nat.length_toDigits_le_iff (by decide) hpos).2 (Nat.not_le.1 hlt)
    unfold Decimal.digitCount at *
    omega

variable {c : Nat} {k : Int}

/-- A numeral between the powers of ten around it. -/
theorem numeral_bounds (hc : 0 < c) (k : Int) :
    (10 : Rat) ^ ((Decimal.digitCount c : Int) + k - 1) ≤ c * 10 ^ k ∧
      (c : Rat) * 10 ^ k < 10 ^ ((Decimal.digitCount c : Int) + k) := by
  have hpow : (0 : Rat) < 10 ^ k := zpow_pos (by norm_num) k
  have hcount : 0 < Decimal.digitCount c := Nat.length_toDigits_pos
  constructor
  · have hle : (10 : Rat) ^ (Decimal.digitCount c - 1) ≤ c := by exact_mod_cast pow_digitCount_le hc
    calc (10 : Rat) ^ ((Decimal.digitCount c : Int) + k - 1)
        = 10 ^ (Decimal.digitCount c - 1) * 10 ^ k := by
          rw [← zpow_natCast, ← zpow_add₀ (by norm_num)]
          congr 1
          omega
      _ ≤ c * 10 ^ k := mul_le_mul_of_nonneg_right hle hpow.le
  · have hlt : (c : Rat) < 10 ^ Decimal.digitCount c := by exact_mod_cast lt_pow_digitCount c
    rw [zpow_add₀ (by norm_num), zpow_natCast]
    exact mul_lt_mul_of_pos_right hlt hpow

/-- Three bits are less than a decimal digit. -/
theorem two_zpow_le_ten (k : Nat) :
    (2 : Rat) ^ ((3 * k : Nat) : Int) ≤ 10 ^ (k : Int) ∧
      (10 : Rat) ^ (-(k : Int)) ≤ 2 ^ (-((3 * k : Nat) : Int)) := by
  have hle : (2 : Rat) ^ (3 * k) ≤ 10 ^ k := by
    rw [pow_mul]
    exact pow_le_pow_left₀ (by norm_num) (by norm_num) k
  rw [zpow_neg, zpow_neg, zpow_natCast, zpow_natCast]
  exact ⟨hle, inv_anti₀ (by positivity) hle⟩

/-- What is read as a double is in the range that is computed. -/
theorem Near.exponent_bounds (hm : IsRounded m q) (hc : 0 < c) (hx : Near m q (c * 10 ^ k)) :
    -400 ≤ (Decimal.digitCount c : Int) + k ∧
      (q ≤ 971 → (Decimal.digitCount c : Int) + k ≤ 400) := by
  obtain ⟨hlow, hhigh⟩ := numeral_bounds hc k
  have hten : ∀ {a b : Int}, a ≤ b → (10 : Rat) ^ a ≤ 10 ^ b :=
    fun h => zpow_le_zpow_right₀ (by norm_num) h
  have hpos := hm.pos
  have hle := below_le m q
  constructor
  · by_contra hsmall
    have hleast := hx.pow_le (k := 1) (by omega)
    have hmost : (c : Rat) * 10 ^ k < 2 ^ (-1203 : Int) :=
      (hhigh.trans_le (hten (b := -401) (by omega))).trans_le (two_zpow_le_ten 401).2
    have := two_zpow_lt.1 (hleast.trans_lt hmost)
    have := hm.least
    omega
  · intro hdouble
    by_contra hlarge
    have hmost := hx.lt_pow (k := 55) (by have := hm.lt; omega)
    have hleast : (2 : Rat) ^ (1200 : Int) ≤ c * 10 ^ k :=
      (two_zpow_le_ten 400).1.trans ((hten (a := 400) (by omega)).trans hlow)
    have := two_zpow_lt.1 (hleast.trans_lt hmost)
    omega

theorem Near.coefficient_pos (hm : IsRounded m q) (hx : Near m q (c * 10 ^ k)) : 0 < c := by
  have hpos := hm.pos
  have hle := below_le m q
  have hlow := (two_zpow_pos _).trans_le (hx.pow_le (k := 1) (by omega))
  refine Nat.pos_of_ne_zero ?_
  rintro rfl
  simp at hlow

/-- A numeral whose coefficient and power of ten are doubles. -/
theorem ofScientific_small (hm : IsRounded m q) (hc : 0 < c) (hx : Near m q (c * 10 ^ k))
    (hsmall : c < 2 ^ 53 ∧ k.natAbs ≤ 22) :
    Float.ofScientific c (k < 0) k.natAbs = Float.ofModel (pack (.finite .positive m q hm.pos)) := by
  obtain ⟨hlog, hlow, -⟩ := aligned_bounds hc hsmall.1
  have hcoefficient := unpack_toFloat hc hsmall.1
  have hvalue : ((c * 2 ^ (52 - c.log2) : Nat) : Rat) * 2 ^ ((c.log2 : Int) - 52) = c := by
    push_cast
    rw [mul_assoc, ← zpow_natCast, ← zpow_add₀ (by norm_num)]
    rw [show ((52 - c.log2 : Nat) : Int) + (c.log2 - 52) = 0 by omega, zpow_zero, mul_one]
  obtain ⟨n, e, hn, hpower, hten⟩ :=
    unpack_of_isPowerOfTen (isPowerOfTen_exact ⟨k.natAbs, by omega⟩)
  unfold Float.ofScientific
  rw [dif_pos hsmall]
  dsimp only
  by_cases hneg : k < 0
  · rw [if_pos (decide_eq_true hneg)]
    refine div_float hm hcoefficient hpower ?_
    rw [hvalue, hten, ← zpow_natCast, div_eq_mul_inv, ← zpow_neg]
    rwa [show -((k.natAbs : Nat) : Int) = k by omega]
  · rw [if_neg (fun h => hneg (of_decide_eq_true h))]
    refine mul_float hm hcoefficient hpower hlow ?_
    rw [hvalue, hten, ← zpow_natCast]
    rwa [show ((k.natAbs : Nat) : Int) = k by omega]

/-- An exponent is put together again from its sign and its magnitude. -/
theorem exponent_eq (k : Int) :
    (if decide (k < 0) = true then Int.negOfNat k.natAbs else Int.ofNat k.natAbs) = k := by
  split
  next hneg =>
    have hneg : k < 0 := of_decide_eq_true hneg
    rw [Int.negOfNat_eq, Int.ofNat_eq_natCast]
    omega
  next hneg =>
    have hneg : ¬ k < 0 := of_decide_eq_false (Bool.not_eq_true _ ▸ hneg)
    rw [Int.ofNat_eq_natCast]
    omega

/-- A numeral that is read by exact arithmetic. -/
theorem ofScientific_large (hm : IsRounded m q) (hc : 0 < c) (hx : Near m q (c * 10 ^ k))
    (hlarge : ¬ (c < 2 ^ 53 ∧ k.natAbs ≤ 22)) (hmost : (Decimal.digitCount c : Int) + k ≤ 400) :
    Float.ofScientific c (k < 0) k.natAbs = Float.ofModel (pack (.finite .positive m q hm.pos)) := by
  have hleast := (hx.exponent_bounds hm hc).1
  have hcount : Decimal.digitCount c ≤ c.log2 + 1 := by
    have hlt : 2 ^ (Decimal.digitCount c - 1) < 2 ^ (c.log2 + 1) :=
      ((Nat.pow_le_pow_left (by decide) _).trans (pow_digitCount_le hc)).trans_lt Nat.lt_log2_self
    have := (Nat.pow_lt_pow_iff_right (by decide)).1 hlt
    omega
  unfold Float.ofScientific
  rw [dif_neg hlarge]
  dsimp only
  rw [exponent_eq]
  show Float.ofModel (pack (UnpackedFloat.ofScientific Format.binary64 c k)) = _
  unfold UnpackedFloat.ofScientific
  rw [dif_neg hc.ne', if_neg (by show ¬ k > 2048; omega),
    if_neg (by show ¬ k < -(2048 + (c.log2 : Int)); omega)]
  by_cases hwhole : 0 ≤ k
  · rw [if_pos hwhole]
    have hwide : 2 ^ 52 ≤ c <<< Format.binary64.mantissaBits := by
      show 2 ^ 52 ≤ c <<< 53
      rw [Nat.shiftLeft_eq]
      omega
    rw [mul_near hm hwide]
    have hvalue : ((c <<< Format.binary64.mantissaBits : Nat) : Rat)
        * 2 ^ (-(Format.binary64.mantissaBits : Int)) * ((10 ^ k.toNat : Nat) * 2 ^ (0 : Int))
        = c * 10 ^ k := by
      rw [Nat.shiftLeft_eq]
      push_cast
      rw [zpow_neg, zpow_natCast, mul_one, ← zpow_natCast (10 : Rat), Int.toNat_of_nonneg hwhole,
        mul_inv_cancel_right₀ (pow_ne_zero _ (by norm_num))]
    rwa [hvalue]
  · rw [if_neg hwhole, div_near hm]
    have hvalue : (c : Rat) * 2 ^ (0 : Int) / ((10 ^ (-k).toNat : Nat) * 2 ^ (0 : Int))
        = c * 10 ^ k := by
      push_cast
      rw [mul_one, mul_one, ← zpow_natCast, Int.toNat_of_nonneg (by omega), zpow_neg,
        div_inv_eq_mul]
    rwa [hvalue]

/-- What does not fit the exponents of doubles is packed as an infinity. -/
theorem pack_large (hm : 0 < m) (hq : 972 ≤ q) :
    Float.ofModel (pack (.finite .positive m q hm)) = infinity := by
  have hpack : UnpackedFloat.pack Format.binary64 (.finite .positive m q hm)
      = UnpackedFloat.packedInfinity Format.binary64 .positive := by
    have hbiased : 2 ^ Format.binary64.exponentBits ≤ (q + (Format.binary64.exponentBias : Int)
        + (Format.binary64.mantissaBitsWithoutImplicit : Int)).toNat + 1 := by
      show 2048 ≤ (q + 1023 + 52).toNat + 1
      omega
    exact if_pos hbiased
  refine ext_bits ?_
  show UnpackedFloat.pack Format.binary64 (.finite .positive m q hm) = _
  rw [hpack]
  decide +kernel

/-- A numeral is read as the double of whose interval it is, and as infinity if that is none. -/
theorem magnitude_near (hm : IsRounded m q) (hx : Near m q (c * 10 ^ k)) :
    Decimal.magnitude c k = Float.ofModel (pack (.finite .positive m q hm.pos)) := by
  have hc := hx.coefficient_pos hm
  obtain ⟨hleast, hmost⟩ := hx.exponent_bounds hm hc
  unfold Decimal.magnitude
  dsimp only
  rw [if_neg hc.ne']
  by_cases hlarge : 400 < (Decimal.digitCount c : Int) + k
  · rw [if_pos hlarge, pack_large hm.pos (by omega)]
  · rw [if_neg hlarge, if_neg (by omega)]
    by_cases hsmall : c < 2 ^ 53 ∧ k.natAbs ≤ 22
    · exact ofScientific_small hm hc hx hsmall
    · exact ofScientific_large hm hc hx hsmall (by omega)

theorem ofModel_zero : Float.ofModel (pack (.zero .positive)) = 0.0 := ext_bits (by decide +kernel)

/-- A small numeral is read by exact arithmetic, as zero. -/
theorem ofScientific_zero (hc : 0 < c) (hk : k < -22)
    (hx : (c : Rat) * 10 ^ k ≤ 2 ^ (-1075 : Int)) :
    Float.ofScientific c (k < 0) k.natAbs = 0.0 := by
  unfold Float.ofScientific
  rw [dif_neg (by omega)]
  dsimp only
  rw [exponent_eq]
  show Float.ofModel (pack (UnpackedFloat.ofScientific Format.binary64 c k)) = _
  unfold UnpackedFloat.ofScientific
  rw [dif_neg hc.ne', if_neg (by show ¬ k > 2048; omega), if_neg (by omega : ¬ 0 ≤ k)]
  by_cases hleast : k < -(2 ^ Format.binary64.exponentBits + (c.log2 : Int))
  · rw [if_pos hleast, ofModel_zero]
  · rw [if_neg hleast, div_zero, ofModel_zero]
    refine le_trans (le_of_eq ?_) hx
    push_cast
    rw [mul_one, mul_one, ← zpow_natCast, Int.toNat_of_nonneg (by omega), zpow_neg, div_inv_eq_mul]

/-- A numeral up to half the least double is read as zero. -/
theorem magnitude_zero (hx : (c : Rat) * 10 ^ k ≤ 2 ^ (-1075 : Int)) :
    Decimal.magnitude c k = 0.0 := by
  unfold Decimal.magnitude
  dsimp only
  rcases Nat.eq_zero_or_pos c with rfl | hc
  · rfl
  · have hlow := (numeral_bounds hc k).1
    have hone : (1 : Rat) ≤ c := by exact_mod_cast hc
    have hten : (2 : Rat) ^ (-1075 : Int) < 10 ^ (-22 : Int) :=
      (two_zpow_lt.2 (by decide : (-1075 : Int) < -88)).trans_le (by norm_num)
    have hsmall : (10 : Rat) ^ k < 10 ^ (-22 : Int) :=
      ((le_mul_of_one_le_left (zpow_pos (by norm_num) k).le hone).trans hx).trans_lt hten
    have hk := (zpow_lt_zpow_iff_right₀ (by norm_num)).1 hsmall
    have htop := (zpow_lt_zpow_iff_right₀ (by norm_num)).1 ((hlow.trans hx).trans_lt hten)
    rw [if_neg hc.ne', if_neg (by omega)]
    split
    · rfl
    · exact ofScientific_zero hc hk hx

/-! ## Doubles and what they stand for -/

theorem isDouble_of_ofFloat {negative : Bool} (h : Binary64.ofFloat x = .finite negative m q)
    (hm : 0 < m) : IsDouble m q := by
  rw [ofFloat_eq] at h
  have hfield : (UnpackedFloat.unpackExponent (bits x)).toNat < 2048 :=
    (UnpackedFloat.unpackExponent (bits x)).isLt
  have hfraction : (UnpackedFloat.unpackMantissa (bits x)).toNat < 2 ^ 52 :=
    (UnpackedFloat.unpackMantissa (bits x)).isLt
  unfold ofFields Binary64.hiddenBit at h
  split at h
  next => split at h <;> cases h
  next hinfinite =>
    split at h
    next =>
      injection h with _ hmantissa hexponent
      exact ⟨⟨hm, by omega, by omega, .inr hexponent.symm⟩, by omega⟩
    next =>
      injection h with _ hmantissa hexponent
      exact ⟨⟨hm, by omega, by omega, .inl (by omega)⟩, by omega⟩

/-- A double is zero, or is packed from the number that it stands for. -/
theorem eq_of_ofFloat (h : Binary64.ofFloat x = .finite false m q) :
    m = 0 ∧ x = 0.0 ∨ ∃ hm : 0 < m, x = Float.ofModel (pack (.finite .positive m q hm)) := by
  have hnumber : x.isNaN = false := isNaN_of_ofFloat (by rw [h]; exact nofun)
  have hneg : ofUnpacked (-x).toModel.unpack = .finite true m q := by
    rw [← ofFloat_eq_ofUnpacked, ofFloat_neg hnumber, h]
    rfl
  have hx : x = Float.ofModel (pack (-x).toModel.unpack.neg) := (neg_neg hnumber).symm
  cases hs : (-x).toModel.unpack with
  | notANumber =>
    rw [hs] at hneg
    cases hneg
  | infinity =>
    rw [hs] at hneg
    cases hneg
  | zero s =>
    rw [hs] at hneg
    injection hneg with hsign hzero
    refine .inl ⟨hzero.symm, hx.trans ?_⟩
    rw [hs]
    cases s with
    | negative => exact ext_bits (by decide +kernel)
    | positive => cases hsign
  | finite s m' e' hm' =>
    rw [hs] at hneg
    injection hneg with hsign hmantissa hexponent
    subst hmantissa hexponent
    refine .inr ⟨hm', hx.trans ?_⟩
    rw [hs]
    cases s with
    | negative => rfl
    | positive => cases hsign

/-- A numeral in the interval of a double is read as the double. -/
theorem magnitude_of_near (h : Binary64.ofFloat x = .finite false m q) (hm : 0 < m)
    (hx : Near m q (c * 10 ^ k)) : Decimal.magnitude c k = x := by
  obtain ⟨rfl, -⟩ | ⟨_, heq⟩ := eq_of_ofFloat h
  · exact absurd hm (Nat.lt_irrefl 0)
  · rw [heq]
    exact magnitude_near (isDouble_of_ofFloat h hm).toIsRounded hx

end Number

end ColumnQuery
