/-
  Doubles compared as numbers.

  Of two mantissas the one with the greater exponent is the greater number, since its leading bit
  stands at place `52` (`IsRounded.lt_of_exponent`). So finite doubles are in the order of the
  numbers that they stand for (`le_iff`), with infinities around them. The order of sort keys goes
  by bit patterns, in which the exponent stands before the mantissa, so it only refines this order:
  what comes first as a sort key is at most the other number (`le_of_order`).
-/
import ColumnQuery.Proofs.Number.Rational
import ColumnQuery.Proofs.Number.Same

namespace ColumnQuery

namespace Number

open Float.Model

variable {x y : Float} {m m' : Nat} {q q' : Int} {u v : Rat}

/-! ## Mantissas and exponents -/

theorem IsRounded.lt_of_exponent (h : IsRounded m q) (h' : IsRounded m' q') (hlt : q < q') :
    (m : Rat) * 2 ^ q < m' * 2 ^ q' := by
  have hleading : 2 ^ 52 ≤ m' := h'.leading.resolve_right (by have := h.least; omega)
  have hm : (m : Rat) < 2 ^ 53 := by exact_mod_cast h.lt
  have hm' : (2 ^ 52 : Rat) ≤ m' := by exact_mod_cast hleading
  have hpow : (2 : Rat) * 2 ^ q ≤ 2 ^ q' := by
    rw [← zpow_one_add₀ two_ne_zero]
    exact two_zpow_le.2 (by omega)
  calc (m : Rat) * 2 ^ q < 2 ^ 53 * 2 ^ q := mul_lt_mul_of_pos_right hm (two_zpow_pos q)
    _ = 2 ^ 52 * (2 * 2 ^ q) := by ring
    _ ≤ 2 ^ 52 * 2 ^ q' := mul_le_mul_of_nonneg_left hpow (by norm_num)
    _ ≤ m' * 2 ^ q' := mul_le_mul_of_nonneg_right hm' (two_zpow_pos q').le

/-- Exponents are compared first, then mantissas. -/
theorem IsRounded.le_iff (h : IsRounded m q) (h' : IsRounded m' q') :
    (m : Rat) * 2 ^ q ≤ m' * 2 ^ q' ↔ q < q' ∨ q = q' ∧ m ≤ m' := by
  rcases Int.lt_trichotomy q q' with hlt | rfl | hgt
  · exact iff_of_true (h.lt_of_exponent h' hlt).le (.inl hlt)
  · rw [mul_le_mul_iff_of_pos_right (two_zpow_pos q), Nat.cast_le]
    simp
  · exact iff_of_false (not_le.2 (h'.lt_of_exponent h hgt)) (by omega)

theorem isLE_then_iff : ((compare q q').then (compare m m')).isLE = true ↔
    q < q' ∨ q = q' ∧ m ≤ m' := by
  rw [Ordering.isLE_then_iff_or, Int.compare_eq_lt, Int.compare_eq_eq, Nat.isLE_compare]

/-! ## Unpacked doubles -/

/-- The number with a sign. -/
def withSign (s : UnpackedFloat.Sign) (v : Rat) : Rat := if isMinus s then -v else v

theorem isDouble_of_unpack {s : UnpackedFloat.Sign} {hm : 0 < m}
    (h : x.toModel.unpack = .finite s m q hm) : IsDouble m q :=
  isDouble_of_ofFloat (by rw [ofFloat_eq_ofUnpacked, h]; rfl) hm

theorem value?_of_unpack {s : UnpackedFloat.Sign} {hm : 0 < m}
    (h : x.toModel.unpack = .finite s m q hm) : value? x = some (withSign s (m * 2 ^ q)) := by
  unfold value?
  rw [ofFloat_eq_ofUnpacked, h]
  rfl

/-- A finite double is zero or has a mantissa. -/
theorem unpack_of_value? (h : value? x = some u) :
    (∃ s, x.toModel.unpack = .zero s ∧ u = 0) ∨
    ∃ s m q, ∃ hm : IsDouble m q, x.toModel.unpack = .finite s m q hm.pos ∧
      u = withSign s (m * 2 ^ q) := by
  cases hx : x.toModel.unpack with
  | notANumber | infinity s =>
    unfold value? at h
    rw [ofFloat_eq_ofUnpacked, hx] at h
    cases h
  | zero s =>
    refine .inl ⟨s, rfl, ?_⟩
    unfold value? at h
    rw [ofFloat_eq_ofUnpacked, hx] at h
    rw [← Option.some.inj h, Nat.cast_zero, zero_mul, neg_zero, ite_self]
  | finite s m q hm =>
    exact .inr ⟨s, m, q, isDouble_of_unpack hx, rfl,
      Option.some.inj (h.symm.trans (value?_of_unpack hx))⟩

/-! ## The order of numbers -/

theorem le_iff_unpack : x ≤ y ↔ x.toModel.unpack.le y.toModel.unpack = true :=
  decide_eq_true_iff

theorem scaled_pos (hm : 0 < m) (q : Int) : (0 : Rat) < m * 2 ^ q :=
  mul_pos (by exact_mod_cast hm) (two_zpow_pos q)

/-- Finite doubles are in the order of the numbers that they stand for. -/
theorem le_iff (hx : value? x = some u) (hy : value? y = some v) : x ≤ y ↔ u ≤ v := by
  rw [le_iff_unpack]
  obtain ⟨s, hux, rfl⟩ | ⟨s, m, q, hm, hux, rfl⟩ := unpack_of_value? hx <;>
    obtain ⟨t, huy, rfl⟩ | ⟨t, n, k, hn, huy, rfl⟩ := unpack_of_value? hy <;>
    rw [hux, huy]
  · exact iff_of_true rfl (le_refl _)
  · have hpos := scaled_pos hn.pos k
    cases t with
    | negative => exact iff_of_false Bool.false_ne_true (not_le.2 (neg_lt_zero.2 hpos))
    | positive => exact iff_of_true rfl hpos.le
  · have hpos := scaled_pos hm.pos q
    cases s with
    | negative => exact iff_of_true rfl (neg_nonpos.2 hpos.le)
    | positive => exact iff_of_false Bool.false_ne_true (not_le.2 hpos)
  · have hpos := scaled_pos hm.pos q
    have hpos' := scaled_pos hn.pos k
    cases s with
    | negative =>
      cases t with
      | negative =>
        show ((compare q k).then (compare m n)).swap.isLE = true ↔
          -((m : Rat) * 2 ^ q) ≤ -(n * 2 ^ k)
        rw [Ordering.swap_then, Int.compare_swap, Nat.compare_swap, isLE_then_iff, neg_le_neg_iff,
          hn.le_iff hm.toIsRounded]
      | positive =>
        exact iff_of_true rfl ((neg_nonpos.2 hpos.le).trans hpos'.le)
    | positive =>
      cases t with
      | negative =>
        exact iff_of_false Bool.false_ne_true (not_le.2 ((neg_lt_zero.2 hpos').trans hpos))
      | positive =>
        show ((compare q k).then (compare m n)).isLE = true ↔ (m : Rat) * 2 ^ q ≤ n * 2 ^ k
        rw [isLE_then_iff, hm.le_iff hn.toIsRounded]

/-! ## Bit patterns -/

/-- The bits of a magnitude: the exponent stands before the mantissa. -/
def magnitudeBits : Binary64 → Int
  | .nan => 0
  | .infinite _ => 2047 * 2 ^ 52
  | .finite _ m q => (q + 1074) * 2 ^ 52 + m

def isNegative : Binary64 → Bool
  | .nan => false
  | .infinite negative | .finite negative _ _ => negative

/-- The bits of a number are its sign before its magnitude. -/
theorem toBits_eq (hx : x.isNaN = false) : 0 ≤ magnitudeBits (Binary64.ofFloat x) ∧
    magnitudeBits (Binary64.ofFloat x) < 2 ^ 63 ∧
    (x.toBits.toNat : Int) = (if isNegative (Binary64.ofFloat x) then 2 ^ 63 else 0)
      + magnitudeBits (Binary64.ofFloat x) := by
  have hnumber : Binary64.ofFloat x ≠ .nan := fun h => by
    rw [ofFloat_eq_nan_iff.1 h] at hx
    cases hx
  have hlt : x.toBits.toNat < 2 ^ 64 := x.toBits.toNat_lt
  unfold Binary64.ofFloat at hnumber ⊢
  generalize x.toBits.toNat = b at hnumber hlt
  have hsign : b.testBit 63 = decide (b / 2 ^ 63 % 2 = 1) := Nat.testBit_eq_decide_div_mod_eq
  unfold Binary64.ofBits Binary64.hiddenBit at hnumber ⊢
  dsimp only at hnumber ⊢
  rw [hsign] at hnumber ⊢
  split
  next hfield =>
    split
    next hfraction =>
      simp only [magnitudeBits, isNegative, decide_eq_true_eq]
      refine ⟨by decide, by decide, ?_⟩
      split <;> omega
    next hfraction =>
      rw [if_pos hfield, if_neg hfraction] at hnumber
      exact absurd rfl hnumber
  next hfield =>
    split
    next hsmall =>
      simp only [magnitudeBits, isNegative, decide_eq_true_eq]
      refine ⟨by omega, by omega, ?_⟩
      split <;> omega
    next hlarge =>
      simp only [magnitudeBits, isNegative, decide_eq_true_eq]
      refine ⟨by omega, by omega, ?_⟩
      split <;> omega

theorem eq_of_ofFloat_eq (hx : x.isNaN = false)
    (h : Binary64.ofFloat x = Binary64.ofFloat y) : x = y := by
  have hy : y.isNaN = false := isNaN_of_ofFloat fun hnan => by
    rw [← h, ofFloat_eq_nan_iff, hx] at hnan
    cases hnan
  have hbits := (toBits_eq hx).2.2
  rw [h, ← (toBits_eq hy).2.2] at hbits
  exact eq_of_toBits (by exact_mod_cast hbits)

/-- The place of a number in the order of sort keys. -/
theorem place_eq (hx : x.isNaN = false) : place x =
    if isNegative (Binary64.ofFloat x) then -magnitudeBits (Binary64.ofFloat x) - 1
    else magnitudeBits (Binary64.ofFloat x) := by
  obtain ⟨hnonneg, hlt, hbits⟩ := toBits_eq hx
  unfold place
  generalize magnitudeBits (Binary64.ofFloat x) = k at hnonneg hlt hbits ⊢
  generalize isNegative (Binary64.ofFloat x) = negative at hbits ⊢
  generalize x.toBits.toNat = b at hbits ⊢
  have hsign : b.testBit 63 = decide (b / 2 ^ 63 % 2 = 1) := Nat.testBit_eq_decide_div_mod_eq
  simp only [hsign, decide_eq_true_eq]
  cases negative with
  | true =>
    simp only [if_true] at hbits ⊢
    rw [if_pos (by omega)]
    omega
  | false =>
    simp only [Bool.false_eq_true, if_false] at hbits ⊢
    rw [if_neg (by omega)]
    omega

/-! ## Infinities -/

theorem unpack_infinity : infinity.toModel.unpack = .infinity .positive := by rfl

theorem ofFloat_infinity : Binary64.ofFloat infinity = .infinite false := by rfl

theorem ofFloat_neg_infinity : Binary64.ofFloat (-infinity) = .infinite true := by rfl

/-- A double is not-a-number, finite, or an infinity. -/
theorem finite_or_infinite (hx : x.isNaN = false) :
    (∃ u, value? x = some u) ∨ x = infinity ∨ x = -infinity := by
  cases hform : Binary64.ofFloat x with
  | nan =>
    rw [ofFloat_eq_nan_iff, hx] at hform
    cases hform
  | infinite negative =>
    right
    cases negative with
    | false => exact .inl (eq_of_ofFloat_eq hx (hform.trans ofFloat_infinity.symm))
    | true => exact .inr (eq_of_ofFloat_eq hx (hform.trans ofFloat_neg_infinity.symm))
  | finite negative m q => exact .inl ⟨_, value?_of_finite hform⟩

theorem le_infinity (hx : x.isNaN = false) : x ≤ infinity := by
  rw [le_iff_unpack, unpack_infinity]
  have hnumber : x.toModel.unpack.isNaN = false := hx
  cases hu : x.toModel.unpack with
  | notANumber =>
    rw [hu] at hnumber
    cases hnumber
  | infinity s => cases s <;> rfl
  | zero s => rfl
  | finite s m q hm => cases s <;> rfl

theorem neg_infinity_le (hx : x.isNaN = false) : -infinity ≤ x := by
  rw [le_iff_unpack, show (-infinity).toModel.unpack = .infinity .negative from rfl]
  have hnumber : x.toModel.unpack.isNaN = false := hx
  cases hu : x.toModel.unpack with
  | notANumber =>
    rw [hu] at hnumber
    cases hnumber
  | infinity s => cases s <;> rfl
  | zero s => rfl
  | finite s m q hm => cases s <;> rfl

/-! ## The order of sort keys -/

theorem order_isLE_iff : (order x y).isLE = true ↔ place x ≤ place y := by
  unfold order
  rw [Int.isLE_compare]

/-- A finite double by its sign and its magnitude, which is zero or has a mantissa. -/
theorem exists_magnitude (h : value? x = some u) : ∃ s m q,
    (IsDouble m q ∨ m = 0 ∧ q = -1074) ∧ u = withSign s (m * 2 ^ q) ∧
    place x = if isMinus s then -((q + 1074) * 2 ^ 52 + m) - 1 else (q + 1074) * 2 ^ 52 + m := by
  have hform : ∀ {s m q}, Binary64.ofFloat x = .finite (isMinus s) m q →
      place x = if isMinus s then -((q + 1074) * 2 ^ 52 + m) - 1
        else (q + 1074) * 2 ^ 52 + m := by
    intro s m q hform
    rw [place_eq (isNaN_of_ofFloat (by rw [hform]; exact nofun)), hform]
    rfl
  obtain ⟨s, hux, rfl⟩ | ⟨s, m, q, hm, hux, rfl⟩ := unpack_of_value? h
  · refine ⟨s, 0, -1074, .inr ⟨rfl, rfl⟩, ?_, hform (by rw [ofFloat_eq_ofUnpacked, hux]; rfl)⟩
    cases s <;> simp [withSign]
  · exact ⟨s, m, q, .inl hm, rfl, hform (by rw [ofFloat_eq_ofUnpacked, hux]; rfl)⟩

/-- Magnitudes are in the order of their bits. -/
theorem magnitude_le (hx : IsDouble m q ∨ m = 0 ∧ q = -1074)
    (hy : IsDouble m' q' ∨ m' = 0 ∧ q' = -1074)
    (h : (q + 1074) * 2 ^ 52 + (m : Int) ≤ (q' + 1074) * 2 ^ 52 + m') :
    (m : Rat) * 2 ^ q ≤ m' * 2 ^ q' := by
  obtain hm | ⟨rfl, rfl⟩ := hx
  · obtain hm' | ⟨rfl, rfl⟩ := hy
    · refine (hm.le_iff hm'.toIsRounded).2 ?_
      have hlt := hm'.lt
      have hleast' := hm'.least
      rcases hm.leading with hleading | hleast <;> omega
    · have := hm.pos
      have := hm.least
      omega
  · rw [Nat.cast_zero, zero_mul]
    exact mul_nonneg (Nat.cast_nonneg m') (two_zpow_pos q').le

theorem place_magnitude_nonneg (h : IsDouble m q ∨ m = 0 ∧ q = -1074) :
    0 ≤ (q + 1074) * 2 ^ 52 + (m : Int) ∧ (q + 1074) * 2 ^ 52 + (m : Int) < 2047 * 2 ^ 52 := by
  obtain hm | ⟨rfl, rfl⟩ := h
  · have := hm.least
    have := hm.most
    have := hm.lt
    omega
  · decide

theorem le_of_place (hx : value? x = some u) (hy : value? y = some v)
    (h : place x ≤ place y) : u ≤ v := by
  obtain ⟨s, m, q, hm, rfl, hplace⟩ := exists_magnitude hx
  obtain ⟨t, m', q', hm', rfl, hplace'⟩ := exists_magnitude hy
  rw [hplace, hplace'] at h
  have hnonneg := place_magnitude_nonneg hm
  have hnonneg' := place_magnitude_nonneg hm'
  have hvalue : (0 : Rat) ≤ m * 2 ^ q := by positivity
  have hvalue' : (0 : Rat) ≤ m' * 2 ^ q' := by positivity
  cases s with
  | negative =>
    cases t with
    | negative =>
      simp only [isMinus, if_true] at h
      exact neg_le_neg (magnitude_le hm' hm (by omega))
    | positive => exact (neg_nonpos.2 hvalue).trans hvalue'
  | positive =>
    cases t with
    | negative =>
      simp only [isMinus, if_true, Bool.false_eq_true, if_false] at h
      omega
    | positive =>
      simp only [isMinus, Bool.false_eq_true, if_false] at h
      exact magnitude_le hm hm' h

theorem place_infinity : place infinity = 2047 * 2 ^ 52 := by
  rw [place_eq (by rfl), ofFloat_infinity]
  rfl

theorem place_neg_infinity : place (-infinity) = -(2047 * 2 ^ 52) - 1 := by
  rw [place_eq (by rfl), ofFloat_neg_infinity]
  rfl

theorem place_of_finite (h : value? x = some u) :
    -(2047 * 2 ^ 52) - 1 < place x ∧ place x < 2047 * 2 ^ 52 := by
  obtain ⟨s, m, q, hm, -, hplace⟩ := exists_magnitude h
  have hbounds := place_magnitude_nonneg hm
  rw [hplace]
  split <;> omega

/-- What comes first as a sort key is at most the other number. -/
theorem le_of_order (hx : x.isNaN = false) (hy : y.isNaN = false)
    (h : (order x y).isLE = true) : x ≤ y := by
  rw [order_isLE_iff] at h
  obtain ⟨u, hu⟩ | rfl | rfl := finite_or_infinite hx
  · obtain ⟨v, hv⟩ | rfl | rfl := finite_or_infinite hy
    · exact (le_iff hu hv).2 (le_of_place hu hv h)
    · exact le_infinity hx
    · rw [place_neg_infinity] at h
      exact absurd h (not_le.2 (place_of_finite hu).1)
  · obtain ⟨v, hv⟩ | rfl | rfl := finite_or_infinite hy
    · rw [place_infinity] at h
      exact absurd h (not_le.2 (place_of_finite hv).2)
    · exact le_infinity hx
    · rw [place_infinity, place_neg_infinity] at h
      exact absurd h (by decide)
  · exact neg_infinity_le hy

theorem le_refl_of_number (hx : x.isNaN = false) : x ≤ x :=
  le_of_order hx hx (order_isLE_iff.2 (Int.le_refl _))

end Number

end ColumnQuery
