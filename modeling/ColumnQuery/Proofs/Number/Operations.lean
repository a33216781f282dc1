/-
  Sums, differences and products of doubles.

  The result of an operation on finite doubles is the exact sum, difference or product, rounded once
  (`add_nearest`, `sub_nearest`, `mul_nearest`): no finite double is nearer, and an infinity stands
  for what lies beyond all of them (`IsNearest`). So rounding keeps to the same side of a double
  (`IsClosest.ge`, `IsClosest.le`), and a number that is a double is not rounded at all
  (`IsNearest.exact`). Such are the integer part of a double and what is left of it
  (`toNat64_spec`).
-/
import ColumnQuery.Proofs.Number.Compared

namespace ColumnQuery

namespace Number

open Float.Model

variable {x y z : Float} {m n : Nat} {q e : Int} {u v w : Rat}

/-- No finite double is nearer to a number. -/
def IsClosest (v u : Rat) : Prop := ∀ y w, value? y = some w → |v - u| ≤ |v - w|

/-- The double that a number is rounded to. -/
inductive IsNearest (v : Rat) (x : Float) : Prop where
  | finite (u : Rat) (hx : value? x = some u) (h : IsClosest v u)
  | above (hx : x = infinity) (h : ∀ y w, value? y = some w → w < v)
  | below (hx : x = -infinity) (h : ∀ y w, value? y = some w → v < w)

/-! ## Rounding keeps to one side of a double -/

theorem IsClosest.ge (h : IsClosest v u) (hy : value? y = some w) (hle : w ≤ v) : w ≤ u := by
  by_contra hlt
  have hclose := h y w hy
  rw [abs_of_nonneg (by linarith : 0 ≤ v - w), abs_of_nonneg (by linarith : 0 ≤ v - u)] at hclose
  linarith

theorem IsClosest.le (h : IsClosest v u) (hy : value? y = some w) (hle : v ≤ w) : u ≤ w := by
  by_contra hlt
  have hclose := h y w hy
  rw [abs_of_nonpos (by linarith : v - w ≤ 0), abs_of_nonpos (by linarith : v - u ≤ 0)] at hclose
  linarith

theorem value?_zero : value? 0.0 = some 0 := by
  have hform : Binary64.ofFloat 0.0 = .finite false 0 (-1074) := by decide +kernel
  rw [value?_of_finite hform]
  simp

/-- A number from zero up is rounded to a finite double or to infinity. -/
theorem IsNearest.closest_or_infinity (h : IsNearest v x) (hv : 0 ≤ v) :
    (∃ u, value? x = some u ∧ IsClosest v u) ∨ x = infinity := by
  cases h with
  | finite u hx h => exact .inl ⟨u, hx, h⟩
  | above hx h => exact .inr hx
  | below hx h => exact absurd (h 0.0 0 value?_zero) (not_lt.2 hv)

/-- A number between two doubles is rounded to one between them. -/
theorem IsNearest.between (h : IsNearest v x) (hy : value? y = some u) (hz : value? z = some w)
    (hlow : u ≤ v) (hhigh : v ≤ w) :
    ∃ t, value? x = some t ∧ IsClosest v t ∧ u ≤ t ∧ t ≤ w := by
  cases h with
  | finite t hx h => exact ⟨t, hx, h, h.ge hy hlow, h.le hz hhigh⟩
  | above hx h => exact absurd (h z w hz) (not_lt.2 hhigh)
  | below hx h => exact absurd (h y u hy) (not_lt.2 hlow)

/-- A double is not rounded. -/
theorem IsNearest.exact (h : IsNearest v x) (hy : value? y = some v) : value? x = some v := by
  obtain ⟨t, hx, -, hge, hle⟩ := h.between hy hy (le_refl v) (le_refl v)
  rw [hx, le_antisymm hle hge]

/-! ## Signs -/

theorem value?_neg (h : value? x = some u) : value? (-x) = some (-u) := by
  obtain ⟨negative, m, q, hform, rfl⟩ := value?_eq_some h
  have hnumber : x.isNaN = false := isNaN_of_ofFloat (by rw [hform]; exact nofun)
  rw [value?_of_finite ((ofFloat_neg hnumber).trans (by rw [hform]; rfl))]
  cases negative <;> simp

theorem IsClosest.neg (h : IsClosest v u) : IsClosest (-v) (-u) := by
  intro y w hy
  have hclose := h (-y) (-w) (value?_neg hy)
  rwa [← abs_neg, ← abs_neg (-v - w), show -(-v - -u) = v - u by ring,
    show -(-v - w) = v - -w by ring]

theorem IsNearest.neg (h : IsNearest v x) : IsNearest (-v) (-x) := by
  cases h with
  | finite u hx h => exact .finite (-u) (value?_neg hx) h.neg
  | above hx h =>
    refine .below (by rw [hx]) fun y w hy => ?_
    have := h (-y) (-w) (value?_neg hy)
    linarith
  | below hx h =>
    refine .above (by rw [hx, neg_neg (by rfl)]) fun y w hy => ?_
    have := h (-y) (-w) (value?_neg hy)
    linarith

theorem ofFields_negated (field fraction : Nat) :
    ofFields true field fraction = (ofFields false field fraction).negated := by
  unfold ofFields
  split
  · split <;> rfl
  · split <;> rfl

/-- The sign of a packed double stands apart from its other bits. -/
theorem ofModel_pack_negative (hm : 0 < m) : Float.ofModel (pack (.finite .negative m q hm))
    = -Float.ofModel (pack (.finite .positive m q hm)) := by
  have hfields : ∀ (field : BitVec 11) (fraction : BitVec 52),
      Binary64.ofBits (UnpackedFloat.packComponents Format.binary64 .negative field fraction).toNat
        = (Binary64.ofBits (UnpackedFloat.packComponents Format.binary64 .positive field
            fraction).toNat).negated := by
    intro field fraction
    rw [ofBits_packComponents, ofBits_packComponents]
    exact ofFields_negated _ _
  have hnumber : (Float.ofModel (pack (.finite .positive m q hm))).isNaN = false :=
    isNaN_ofModel_pack _
  refine eq_of_ofFloat_eq (isNaN_ofModel_pack _) ?_
  rw [ofFloat_neg hnumber]
  show Binary64.ofBits (UnpackedFloat.pack Format.binary64 (.finite .negative m q hm)).toNat
    = (Binary64.ofBits (UnpackedFloat.pack Format.binary64
        (.finite .positive m q hm)).toNat).negated
  unfold UnpackedFloat.pack
  dsimp only
  split
  · exact hfields _ _
  · split <;> exact hfields _ _

/-- A double is packed from its parts. -/
theorem ofModel_pack_unpack (hx : x.isNaN = false) :
    Float.ofModel (pack x.toModel.unpack) = x := by
  have hnumber : (Float.ofModel (pack x.toModel.unpack)).isNaN = false :=
    (isNaN_ofModel_pack _).trans hx
  have hneg : -Float.ofModel (pack x.toModel.unpack) = -x := by
    show _ = Float.ofModel (pack x.toModel.unpack.neg)
    cases hu : x.toModel.unpack with
    | notANumber =>
      have hx : x.toModel.unpack.isNaN = false := hx
      rw [hu] at hx
      cases hx
    | infinity s => cases s <;> rfl
    | zero s => cases s <;> rfl
    | finite s m q hm =>
      cases s with
      | negative =>
        rw [ofModel_pack_negative, neg_neg (isNaN_ofModel_pack _)]
        rfl
      | positive => exact (ofModel_pack_negative hm).symm
  rw [← neg_neg hnumber, hneg, neg_neg hx]

/-! ## Rounding once -/

theorem lt_infinityBound (hy : value? y = some w) : w < infinityBound := by
  have hpos : 0 < infinityBound := mul_pos (by norm_num) (two_zpow_pos 971)
  obtain ⟨s, -, rfl⟩ | ⟨s, m, q, hm, -, rfl⟩ := unpack_of_value? hy
  · exact hpos
  · have hlt := ((Near.self m q).lt_bound_iff hm.toIsRounded).2 hm.most
    cases s with
    | negative => exact (neg_lt_zero.2 (scaled_pos hm.pos q)).trans hpos
    | positive => exact hlt

theorem RoundsTo.isNearest (h : RoundsTo v x) : IsNearest v x := by
  cases h with
  | infinite hv hx => exact .above hx fun y w hy => (lt_infinityBound hy).trans_le hv
  | finite m q hv hx nearest even => exact .finite _ (value?_of_finite hx) nearest

/-- A rounded magnitude with its sign. -/
theorem IsNearest.signed (h : IsNearest v (Float.ofModel (pack (.finite .positive m q hm))))
    (s : UnpackedFloat.Sign) :
    IsNearest (withSign s v) (Float.ofModel (pack (.finite s m q hm))) := by
  cases s with
  | positive => exact h
  | negative =>
    rw [ofModel_pack_negative]
    exact h.neg

/-- Up to half the least double a magnitude is rounded to zero. -/
theorem small_nearest (hv : 0 ≤ v) (hsmall : v ≤ 2 ^ (-1075 : Int)) (s : UnpackedFloat.Sign) :
    IsNearest (withSign s v) (Float.ofModel (pack (.zero s))) := by
  have hzero := (roundsTo_zero hv hsmall).isNearest
  cases s with
  | positive => exact hzero
  | negative => exact hzero.neg

theorem zero_nearest (s : UnpackedFloat.Sign) : IsNearest 0 (Float.ofModel (pack (.zero s))) := by
  have hzero := small_nearest (le_refl 0) (two_zpow_pos _).le s
  rwa [show withSign s 0 = 0 by cases s <;> simp [withSign]] at hzero

/-- A mantissa with bits enough is rounded to the nearest double. -/
theorem roundWithAccuracy_nearest (hbits : 52 ≤ n.log2 ∨ e ≤ -1074) (s : UnpackedFloat.Sign) :
    IsNearest (withSign s (n * 2 ^ e))
      (Float.ofModel (pack (UnpackedFloat.roundWithAccuracy Format.binary64 s n e .exact))) := by
  have hone : (n : Rat) / (1 : Nat) * 2 ^ e = n * 2 ^ e := by rw [Nat.cast_one, div_one]
  have hnonneg : (0 : Rat) ≤ n * 2 ^ e := mul_nonneg (Nat.cast_nonneg n) (two_zpow_pos e).le
  rw [← Nat.div_one n] at hbits
  by_cases hsmall : (n * 2 ^ e : Rat) ≤ 2 ^ (-1075 : Int)
  · have hround := roundWithAccuracy_zero Nat.one_pos hbits (hone.trans_le hsmall) s
    rw [Nat.div_one, Nat.mod_one] at hround
    rw [show UnpackedFloat.Accuracy.exact = UnpackedFloat.accuracyOfFraction 0 1 from rfl, hround]
    exact small_nearest hnonneg hsmall s
  · obtain ⟨m, q, hm, hnear⟩ := exists_near (not_le.1 hsmall)
    have hround := roundWithAccuracy_near hm Nat.one_pos hbits (hone ▸ hnear) s
    rw [Nat.div_one, Nat.mod_one] at hround
    rw [show UnpackedFloat.Accuracy.exact = UnpackedFloat.accuracyOfFraction 0 1 from rfl, hround]
    exact (roundsTo_of_near hm hnear).isNearest.signed s

/-- A mantissa is first given the bits that are rounded off. -/
theorem round_nearest (hn : 0 < n) (e : Int) (s : UnpackedFloat.Sign) :
    IsNearest (withSign s (n * 2 ^ e))
      (Float.ofModel (pack (UnpackedFloat.round Format.binary64 s n e))) := by
  unfold UnpackedFloat.round UnpackedFloat.decreaseExponent
  dsimp only
  rw [targetExponent_eq, Nat.shiftLeft_eq]
  generalize htarget : max ((n.log2 : Int) + e - 52) (-1074) = t
  generalize hshift : (e - t).toNat = k
  have hlog : (n * 2 ^ k).log2 = n.log2 + k := by
    refine (Nat.log2_eq_iff (Nat.mul_pos hn (Nat.two_pow_pos k)).ne').2 ⟨?_, ?_⟩
    · rw [Nat.pow_add]
      exact Nat.mul_le_mul_right _ (Nat.log2_self_le hn.ne')
    · rw [Nat.add_right_comm, Nat.pow_add]
      exact Nat.mul_lt_mul_of_pos_right Nat.lt_log2_self (Nat.two_pow_pos k)
  have hvalue : ((n * 2 ^ k : Nat) : Rat) * 2 ^ (e - k) = n * 2 ^ e := by
    rw [zpow_sub₀ two_ne_zero, zpow_natCast]
    push_cast
    field_simp
  rw [← hvalue]
  exact roundWithAccuracy_nearest (by rw [hlog]; omega) s

theorem normalize_nearest (k e : Int) (zero : UnpackedFloat.Sign) :
    IsNearest (k * 2 ^ e)
      (Float.ofModel (pack (UnpackedFloat.normalize Format.binary64 k e zero))) := by
  unfold UnpackedFloat.normalize
  split
  next hlt =>
    have hneg : k < 0 := Int.compare_eq_lt.1 hlt
    have hround := round_nearest (n := (-k).toNat) (by omega) e .negative
    have hcast : (((-k).toNat : Nat) : Rat) = -(k : Rat) := by
      have : (((-k).toNat : Nat) : Int) = -k := Int.toNat_of_nonneg (by omega)
      exact_mod_cast this
    rwa [hcast, show withSign .negative (-(k : Rat) * 2 ^ e) = k * 2 ^ e from by
      show -(-(k : Rat) * 2 ^ e) = _
      ring] at hround
  next heq =>
    obtain rfl : k = 0 := Int.compare_eq_eq.1 heq
    rw [Int.cast_zero, zero_mul]
    exact zero_nearest zero
  next hgt =>
    have hpos : 0 < k := Int.compare_eq_gt.1 hgt
    have hround := round_nearest (n := k.toNat) (by omega) e .positive
    have hcast : ((k.toNat : Nat) : Rat) = (k : Rat) := by
      have : ((k.toNat : Nat) : Int) = k := Int.toNat_of_nonneg hpos.le
      exact_mod_cast this
    rwa [hcast] at hround

/-! ## The operations -/

/-- A signed mantissa at a smaller exponent. -/
theorem decreased_value {t : Int} (h : t ≤ q) (s : UnpackedFloat.Sign) (m : Nat) :
    ((s.apply (m <<< (q - t).toNat : Nat) : Int) : Rat) * 2 ^ t = withSign s (m * 2 ^ q) := by
  have hscale : ((m <<< (q - t).toNat : Nat) : Rat) * 2 ^ t = m * 2 ^ q := by
    rw [Nat.shiftLeft_eq]
    push_cast
    rw [mul_assoc, ← zpow_natCast, ← zpow_add₀ two_ne_zero]
    congr 2
    omega
  cases s with
  | positive => exact hscale
  | negative =>
    show ((-((m <<< (q - t).toNat : Nat) : Int) : Int) : Rat) * 2 ^ t = -(m * 2 ^ q)
    rw [Int.cast_neg, Int.cast_natCast, neg_mul, hscale]

theorem nearest_self (h : value? x = some u) : IsNearest u x :=
  .finite u h fun y w _ => by
    rw [sub_self, abs_zero]
    exact abs_nonneg _

theorem isNaN_of_value? (h : value? x = some u) : x.isNaN = false := by
  obtain ⟨negative, m, q, hform, -⟩ := value?_eq_some h
  exact isNaN_of_ofFloat (by rw [hform]; exact nofun)

/-- A sum of finite doubles is rounded once. -/
theorem add_nearest (hx : value? x = some u) (hy : value? y = some v) :
    IsNearest (u + v) (x + y) := by
  show IsNearest (u + v) (.ofModel (pack (UnpackedFloat.add Format.binary64 x.toModel.unpack
    y.toModel.unpack)))
  have hpackx := ofModel_pack_unpack (isNaN_of_value? hx)
  have hpacky := ofModel_pack_unpack (isNaN_of_value? hy)
  obtain ⟨s, hux, rfl⟩ | ⟨s, m, q, hm, hux, rfl⟩ := unpack_of_value? hx <;>
    obtain ⟨t, huy, rfl⟩ | ⟨t, n, k, hn, huy, rfl⟩ := unpack_of_value? hy <;>
    rw [hux] at hpackx <;> rw [huy] at hpacky <;> rw [hux, huy]
  · rw [add_zero]
    cases s <;> cases t <;> exact zero_nearest _
  · rw [zero_add]
    exact nearest_self (hpacky ▸ hy)
  · rw [add_zero]
    exact nearest_self (hpackx ▸ hx)
  · have hsum := normalize_nearest (s.apply (m <<< (q - min q k).toNat : Nat)
      + t.apply (n <<< (k - min q k).toNat : Nat)) (min q k) .positive
    rwa [Int.cast_add, add_mul, decreased_value (Int.min_le_left q k),
      decreased_value (Int.min_le_right q k)] at hsum

/-- A difference of finite doubles is rounded once. -/
theorem sub_nearest (hx : value? x = some u) (hy : value? y = some v) :
    IsNearest (u - v) (x - y) := by
  show IsNearest (u - v) (.ofModel (pack (UnpackedFloat.sub Format.binary64 x.toModel.unpack
    y.toModel.unpack)))
  have hpackx := ofModel_pack_unpack (isNaN_of_value? hx)
  obtain ⟨s, hux, rfl⟩ | ⟨s, m, q, hm, hux, rfl⟩ := unpack_of_value? hx <;>
    obtain ⟨t, huy, rfl⟩ | ⟨t, n, k, hn, huy, rfl⟩ := unpack_of_value? hy <;>
    rw [hux] at hpackx <;> rw [hux, huy]
  · rw [sub_zero]
    cases s <;> cases t <;> exact zero_nearest _
  · rw [zero_sub]
    have hneg : Float.ofModel (pack (.finite (-t) n k hn.pos)) = -y := by
      show _ = Float.ofModel (pack y.toModel.unpack.neg)
      rw [huy]
      rfl
    show IsNearest _ (Float.ofModel (pack (.finite (-t) n k hn.pos)))
    rw [hneg]
    exact (nearest_self hy).neg
  · rw [sub_zero]
    exact nearest_self (hpackx ▸ hx)
  · have hdifference := normalize_nearest (s.apply (m <<< (q - min q k).toNat : Nat)
      - t.apply (n <<< (k - min q k).toNat : Nat)) (min q k) .positive
    rwa [Int.cast_sub, sub_mul, decreased_value (Int.min_le_left q k),
      decreased_value (Int.min_le_right q k)] at hdifference

theorem withSign_mul (s t : UnpackedFloat.Sign) (u v : Rat) :
    withSign s u * withSign t v = withSign (s * t) (u * v) := by
  cases s with
  | negative =>
    cases t with
    | negative => exact neg_mul_neg u v
    | positive => exact neg_mul u v
  | positive =>
    cases t with
    | negative => exact mul_neg u v
    | positive => rfl

/-- A product of finite doubles is rounded once. -/
theorem mul_nearest (hx : value? x = some u) (hy : value? y = some v) :
    IsNearest (u * v) (x * y) := by
  show IsNearest (u * v) (.ofModel (pack (UnpackedFloat.mul Format.binary64 x.toModel.unpack
    y.toModel.unpack)))
  obtain ⟨s, hux, rfl⟩ | ⟨s, m, q, hm, hux, rfl⟩ := unpack_of_value? hx <;>
    obtain ⟨t, huy, rfl⟩ | ⟨t, n, k, hn, huy, rfl⟩ := unpack_of_value? hy <;>
    rw [hux, huy]
  · rw [mul_zero]
    exact zero_nearest _
  · rw [zero_mul]
    exact zero_nearest _
  · rw [mul_zero]
    exact zero_nearest _
  · have hbits : 52 ≤ (m * n).log2 ∨ q + k ≤ -1074 := by
      have hleast := hm.least
      have hleast' := hn.least
      rcases hm.leading with hleading | hsmall
      · left
        rw [Nat.le_log2 (Nat.mul_pos hm.pos hn.pos).ne']
        exact hleading.trans (Nat.le_mul_of_pos_right m hn.pos)
      · rcases hn.leading with hleading | hsmall'
        · left
          rw [Nat.le_log2 (Nat.mul_pos hm.pos hn.pos).ne']
          exact hleading.trans (Nat.le_mul_of_pos_left n hm.pos)
        · omega
    have hproduct := roundWithAccuracy_nearest hbits (s * t)
    rw [withSign_mul, show (m * 2 ^ q * (n * 2 ^ k) : Rat) = (m * n : Nat) * 2 ^ (q + k) by
      rw [zpow_add₀ two_ne_zero]
      push_cast
      ring]
    exact hproduct

/-! ## Numbers that are doubles -/

/-- A mantissa within the bits of a double need not begin at the leading place. -/
theorem exists_double (hm : m < 2 ^ 53) (hleast : -1074 ≤ q) (hmost : q ≤ 971) :
    ∃ x, value? x = some ((m : Rat) * 2 ^ q) := by
  obtain ⟨j, rfl⟩ := Int.le.dest hleast
  induction j generalizing m with
  | zero =>
    rcases Nat.eq_zero_or_pos m with rfl | hpos
    · exact ⟨0.0, by simpa using value?_zero⟩
    · exact ⟨_, value?_of_finite (ofFloat_pack ⟨⟨hpos, hm, hleast, .inr rfl⟩, hmost⟩)⟩
  | succ j ih =>
    by_cases hleading : 2 ^ 52 ≤ m
    · exact ⟨_, value?_of_finite (ofFloat_pack ⟨⟨by omega, hm, hleast, .inl hleading⟩, hmost⟩)⟩
    · obtain ⟨x, hx⟩ := ih (m := 2 * m) (by omega) (by omega) (by omega)
      have hpow : (2 : Rat) ^ (-1074 + ((j + 1 : Nat) : Int)) = 2 * 2 ^ (-1074 + (j : Int)) := by
        rw [← zpow_one_add₀ two_ne_zero]
        congr 1
        omega
      refine ⟨x, hx.trans ?_⟩
      rw [hpow]
      push_cast
      rw [mul_left_comm, mul_assoc]

/-- Finite doubles are multiples of the least one. -/
theorem exists_multiple (h : value? x = some u) : ∃ k : Int, u = k * 2 ^ (-1074 : Int) := by
  obtain ⟨s, -, rfl⟩ | ⟨s, m, q, hm, -, rfl⟩ := unpack_of_value? h
  · exact ⟨0, by simp⟩
  · exact ⟨_, (decreased_value hm.least s m).symm⟩

/-- The double below a double. -/
theorem exists_below (h : IsDouble m q) (hq : -1074 < q) :
    ∃ x, value? x = some (((m : Rat) - below m q / 2) * 2 ^ q) := by
  have hmost := h.most
  by_cases hpower : m = 2 ^ 52
  · obtain ⟨x, hx⟩ := exists_double (m := 2 ^ 53 - 1) (q := q - 1) (by decide) (by omega) (by omega)
    refine ⟨x, hx.trans ?_⟩
    rw [show below m q = 1 from if_pos ⟨hpower, hq⟩, hpower, zpow_sub₀ two_ne_zero]
    congr 1
    norm_num
    ring
  · obtain ⟨x, hx⟩ := exists_double (m := m - 1) (q := q) (by have := h.lt; omega) h.least hmost
    refine ⟨x, hx.trans ?_⟩
    rw [show below m q = 2 from if_neg fun hp => hpower hp.1, Nat.cast_sub h.pos]
    norm_num

/-! ## Whole numbers and fractions -/

theorem value?_ofNat (h : n < 2 ^ 53) : value? (ofNat n) = some (n : Rat) := by
  rcases Nat.eq_zero_or_pos n with rfl | hpos
  · exact value?_zero
  · obtain ⟨hlog, -⟩ := aligned_bounds hpos h
    rw [value?_of_finite (ofFloat_ofNat hpos h), if_neg Bool.false_ne_true,
      ← wholePart_value (isWhole_aligned hlog), wholePart_aligned hlog]

/-- A mantissa is split into a whole number and what is below the point. -/
theorem wholePart_split (m : Nat) (q : Int) : ∃ r ≤ m, (r : Rat) * 2 ^ q < 1 ∧
    (m : Rat) * 2 ^ q = Binary64.wholePart m q + r * 2 ^ q := by
  unfold Binary64.wholePart
  split
  next hge =>
    refine ⟨0, Nat.zero_le m, by simp, ?_⟩
    show _ = ((m * 2 ^ q.toNat : Nat) : Rat) + _
    rw [Nat.cast_zero, zero_mul, add_zero, Nat.cast_mul, Nat.cast_pow, ← zpow_natCast,
      Int.toNat_of_nonneg hge]
    rfl
  next hneg =>
    show ∃ r ≤ m, _ ∧ _ = ((m / 2 ^ (-q).toNat : Nat) : Rat) + _
    generalize hk : (-q).toNat = k
    have hpow : (2 : Rat) ^ k * 2 ^ q = 1 := by
      rw [← zpow_natCast, ← zpow_add₀ two_ne_zero, show (k : Int) + q = 0 by omega, zpow_zero]
    refine ⟨m % 2 ^ k, Nat.mod_le _ _, ?_, ?_⟩
    · rw [← hpow]
      refine mul_lt_mul_of_pos_right ?_ (two_zpow_pos q)
      exact_mod_cast Nat.mod_lt m (Nat.two_pow_pos k)
    · have hdiv : (m : Rat) = 2 ^ k * (m / 2 ^ k : Nat) + (m % 2 ^ k : Nat) := by
        exact_mod_cast (Nat.div_add_mod m (2 ^ k)).symm
      calc (m : Rat) * 2 ^ q = (2 ^ k * (m / 2 ^ k : Nat) + (m % 2 ^ k : Nat)) * 2 ^ q := by
            rw [← hdiv]
        _ = 2 ^ k * 2 ^ q * (m / 2 ^ k : Nat) + (m % 2 ^ k : Nat) * 2 ^ q := by ring
        _ = _ := by rw [hpow, one_mul]

theorem wholePart_zero (q : Int) : Binary64.wholePart 0 q = 0 := by
  unfold Binary64.wholePart
  split
  · exact Nat.zero_mul _
  · exact Nat.zero_div _

/-- The integer part of a number from zero up, and the rest, which is a double too. -/
theorem toNat64_spec (hx : value? x = some u) (hu : 0 ≤ u) (hlt : u < 2 ^ 64) :
    (toNat64 x : Rat) ≤ u ∧ u < toNat64 x + 1 ∧ ∃ y, value? y = some (u - toNat64 x) := by
  obtain ⟨s, hux, rfl⟩ | ⟨s, m, q, hm, hux, rfl⟩ := unpack_of_value? hx
  · have hform : Binary64.ofFloat x = .finite (isMinus s) 0 (-1074) := by
      rw [ofFloat_eq_ofUnpacked, hux]
      rfl
    have hzero : toNat64 x = 0 := by
      unfold toNat64 clamped
      rw [hform]
      simp only [wholePart_zero]
      cases s <;> decide
    rw [hzero, Nat.cast_zero, sub_zero, zero_add]
    exact ⟨le_refl 0, one_pos, 0.0, value?_zero⟩
  · have hpos := scaled_pos hm.pos q
    cases s with
    | negative => exact absurd hu (not_le.2 (neg_lt_zero.2 hpos))
    | positive =>
      obtain ⟨r, hr, hrest, hsplit⟩ := wholePart_split m q
      have hnonneg : (0 : Rat) ≤ r * 2 ^ q := mul_nonneg (Nat.cast_nonneg r) (two_zpow_pos q).le
      have hwhole : Binary64.wholePart m q < 2 ^ 64 := by
        have hlt : (m : Rat) * 2 ^ q < 2 ^ 64 := hlt
        have : (Binary64.wholePart m q : Rat) < 2 ^ 64 := by linarith
        exact_mod_cast this
      have hform : Binary64.ofFloat x = .finite false m q := by
        rw [ofFloat_eq_ofUnpacked, hux]
        rfl
      have hpart : toNat64 x = Binary64.wholePart m q := by
        unfold toNat64 clamped
        rw [hform]
        simp only [Bool.false_eq_true, if_false, maxNat64]
        omega
      rw [hpart]
      show (Binary64.wholePart m q : Rat) ≤ m * 2 ^ q ∧
        (m : Rat) * 2 ^ q < Binary64.wholePart m q + 1 ∧
        ∃ y, value? y = some ((m : Rat) * 2 ^ q - Binary64.wholePart m q)
      rw [hsplit, add_sub_cancel_left]
      refine ⟨by linarith, by linarith, ?_⟩
      exact exists_double (hr.trans_lt hm.lt) hm.least hm.most

end Number

end ColumnQuery
