/-
  Interpolation between doubles.

  The difference of two doubles may be rounded up, and then leads past the upper one. A weight below
  one makes up for it: it takes away so much that the product is not rounded up to the rounded
  difference again (`not_closest_of_weight`), and stays within the true one (`product_le`). So the
  interpolated number is between the two (`interpolated_between`). If the difference is beyond all
  finite doubles, the weight decides: the result is infinity, and at weight zero not-a-number
  (`interpolated_of_overflow`).
-/
import ColumnQuery.Proofs.Number.Operations

namespace ColumnQuery

namespace Number

open Float.Model

variable {a b d t w : Float} {A B D E T W : Rat}

/-- The number at a weight on the way from one double to another. -/
def interpolated (a b w : Float) : Float := a + w * (b - a)

/-! ## Finite numbers -/

/-- No double is between one and `1 - 2^(-53)`. -/
theorem weight_le (hw : value? w = some W) (hlt : W < 1) : W ≤ 1 - 1 / 2 ^ 53 := by
  have hone : IsRounded (2 ^ 52) (-52) := ⟨by decide, by decide, by decide, .inl (Nat.le_refl _)⟩
  have hbelow : below (2 ^ 52) (-52) = 1 := by decide
  have hle := hone.le_of_lt hw (by norm_num; exact hlt)
  rw [hbelow] at hle
  refine hle.trans (le_of_eq ?_)
  norm_num

/-- A weight below one takes away more than half of the distance to the double below, so that the
    weighted double is nearer to that one. -/
theorem not_closest_of_weight {m : Nat} {q : Int} (hm : IsDouble m q) (hq : -1074 < q)
    (hW : W ≤ 1 - 1 / 2 ^ 53) : ¬ IsClosest (W * (m * 2 ^ q)) (m * 2 ^ q) := by
  intro hclose
  obtain ⟨y, hy⟩ := exists_below hm hq
  have hpow := two_zpow_pos q
  have hbelow : (0 : Rat) < below m q := by exact_mod_cast below_pos m q
  have hleading : 2 ^ 52 ≤ m := hm.leading.resolve_right (by omega)
  have hquarter : (below m q : Rat) / 4 < m / 2 ^ 53 := by
    rw [div_lt_div_iff₀ (by norm_num) (by norm_num)]
    have hnat : below m q * 2 ^ 53 < m * 4 := by
      unfold below
      split <;> omega
    exact_mod_cast hnat
  -- what the weight takes away
  have hloss : (m : Rat) / 2 ^ 53 * 2 ^ q ≤ m * 2 ^ q - W * (m * 2 ^ q) := by
    have hscaled := mul_le_mul_of_nonneg_right hW (scaled_pos hm.pos q).le
    have hexpand : (1 - 1 / 2 ^ 53) * ((m : Rat) * 2 ^ q) = m * 2 ^ q - m / 2 ^ 53 * 2 ^ q := by
      ring
    linarith
  have hmore := (mul_lt_mul_of_pos_right hquarter hpow).trans_le hloss
  have hgap : (0 : Rat) < below m q * 2 ^ q := mul_pos hbelow hpow
  have hnearer := hclose y _ hy
  rw [abs_sub_comm, abs_of_nonneg (by linarith)] at hnearer
  refine absurd hnearer (not_le.2 (abs_lt.2 ⟨?_, ?_⟩)) <;> linarith

/-- A weighted difference is at most the difference, also where the difference was rounded up. -/
theorem product_le (hD : 0 ≤ D) (hmultiple : ∃ k : Int, D = k * 2 ^ (-1074 : Int))
    (hd : value? d = some E) (hE : IsClosest D E) (hw : value? w = some W)
    (hlt : W < 1) (ht : value? t = some T) (hT : IsClosest (W * E) T) : T ≤ D := by
  by_contra hgt
  have hnonneg : 0 ≤ E := hE.ge value?_zero hD
  have hle : T ≤ E := hT.le hd (mul_le_of_le_one_left hnonneg hlt.le)
  have hback : E ≤ T := by
    have hclose := hE t T ht
    rw [abs_sub_comm, abs_of_nonneg (by linarith), abs_sub_comm, abs_of_nonneg (by linarith)]
      at hclose
    linarith
  obtain rfl : T = E := le_antisymm hle hback
  obtain ⟨s, -, rfl⟩ | ⟨s, m, q, hm, -, rfl⟩ := unpack_of_value? hd
  · exact hgt hD
  · cases s with
    | negative => exact absurd hnonneg (not_le.2 (neg_lt_zero.2 (scaled_pos hm.pos q)))
    | positive =>
      by_cases hq : q = -1074
      · -- below the least exponent nothing is rounded off a difference
        subst hq
        obtain ⟨k, rfl⟩ := hmultiple
        have hpow := two_zpow_pos (-1074)
        have hk : 0 ≤ k := by exact_mod_cast nonneg_of_mul_nonneg_left hD hpow
        have hkm : k < m := by
          exact_mod_cast lt_of_mul_lt_mul_right (not_le.1 hgt) hpow.le
        obtain ⟨y, hy⟩ := exists_double (m := k.toNat) (q := -1074) (by have := hm.lt; omega)
          (le_refl _) (by decide)
        have hcast : ((k.toNat : Nat) : Rat) = k := by
          exact_mod_cast Int.toNat_of_nonneg hk
        rw [hcast] at hy
        exact hgt (hE.le hy (le_refl _))
      · exact not_closest_of_weight hm (by have := hm.least; omega) (weight_le hw hlt) hT

theorem value?_infinity : value? infinity = none := by rfl

/-- The interpolated number is between the two, and at weight zero it is the first one. -/
theorem interpolated_between (ha : value? a = some A) (hb : value? b = some B) (hle : A ≤ B)
    (hd : value? (b - a) = some E) (hw : value? w = some W) (hW : 0 ≤ W) (hlt : W < 1) :
    ∃ R, value? (interpolated a b w) = some R ∧ A ≤ R ∧ R ≤ B ∧ (W = 0 → R = A) := by
  have hE : IsClosest (B - A) E := by
    obtain ⟨E', hd', hE⟩ | hinfinite := (sub_nearest hb ha).closest_or_infinity (sub_nonneg.2 hle)
    · rw [hd] at hd'
      cases hd'
      exact hE
    · rw [hinfinite, value?_infinity] at hd
      cases hd
  have hnonneg : 0 ≤ E := hE.ge value?_zero (sub_nonneg.2 hle)
  obtain ⟨T, ht, hT, hT0, -⟩ := (mul_nearest hw hd).between value?_zero hd (mul_nonneg hW hnonneg)
    (mul_le_of_le_one_left hnonneg hlt.le)
  have hmultiple : ∃ k : Int, B - A = k * 2 ^ (-1074 : Int) := by
    obtain ⟨j, rfl⟩ := exists_multiple ha
    obtain ⟨k, rfl⟩ := exists_multiple hb
    exact ⟨k - j, by rw [Int.cast_sub, sub_mul]⟩
  have hTD := product_le (sub_nonneg.2 hle) hmultiple hd hE hw hlt ht hT
  obtain ⟨R, hr, -, hlow, hhigh⟩ := (add_nearest ha ht).between ha hb (by linarith) (by linarith)
  refine ⟨R, hr, hlow, hhigh, ?_⟩
  rintro rfl
  have hproduct := (mul_nearest hw hd).exact (y := 0.0) (by rw [zero_mul]; exact value?_zero)
  obtain rfl : T = 0 := by
    rw [ht, zero_mul] at hproduct
    exact Option.some.inj hproduct
  have hsum := (add_nearest ha ht).exact (y := a) (by rw [add_zero]; exact ha)
  rw [add_zero] at hsum
  exact Option.some.inj (hr.symm.trans hsum)

/-! ## Infinities -/

theorem isFinite_iff : a.isFinite = true ↔ ∃ u, value? a = some u := by
  unfold value?
  rw [ofFloat_eq_ofUnpacked]
  show a.toModel.unpack.isFinite = true ↔ _
  cases a.toModel.unpack with
  | notANumber | infinity s => exact ⟨nofun, nofun⟩
  | zero s | finite s m q hm => exact ⟨fun _ => ⟨_, rfl⟩, fun _ => rfl⟩

theorem ofModel_pack_infinity : Float.ofModel (pack (.infinity .positive)) = infinity := by rfl

theorem mul_infinity (hw : value? w = some W) (hpos : 0 < W) : w * infinity = infinity := by
  show Float.ofModel (pack (UnpackedFloat.mul _ w.toModel.unpack infinity.toModel.unpack)) = _
  rw [unpack_infinity]
  obtain ⟨s, -, rfl⟩ | ⟨s, m, q, hm, huw, rfl⟩ := unpack_of_value? hw
  · exact absurd hpos (lt_irrefl 0)
  · rw [huw]
    cases s with
    | negative => exact absurd hpos (not_lt.2 (neg_nonpos.2 (scaled_pos hm.pos q).le))
    | positive => exact ofModel_pack_infinity

theorem add_infinity (ha : value? a = some A) : a + infinity = infinity := by
  show Float.ofModel (pack (UnpackedFloat.add _ a.toModel.unpack infinity.toModel.unpack)) = _
  rw [unpack_infinity]
  obtain ⟨s, hua, -⟩ | ⟨s, m, q, hm, hua, -⟩ := unpack_of_value? ha <;>
    rw [hua] <;> exact ofModel_pack_infinity

theorem infinity_sub (ha : value? a = some A) : infinity - a = infinity := by
  show Float.ofModel (pack (UnpackedFloat.sub _ infinity.toModel.unpack a.toModel.unpack)) = _
  rw [unpack_infinity]
  obtain ⟨s, hua, -⟩ | ⟨s, m, q, hm, hua, -⟩ := unpack_of_value? ha <;>
    rw [hua] <;> exact ofModel_pack_infinity

theorem sub_neg_infinity (ha : value? a = some A) : a - -infinity = infinity := by
  show Float.ofModel (pack (UnpackedFloat.sub _ a.toModel.unpack (-infinity).toModel.unpack)) = _
  rw [show (-infinity).toModel.unpack = .infinity .negative from rfl]
  obtain ⟨s, hua, -⟩ | ⟨s, m, q, hm, hua, -⟩ := unpack_of_value? ha <;>
    rw [hua] <;> exact ofModel_pack_infinity

theorem isNaN_zero_mul_infinity (hw : value? w = some 0) : (w * infinity).isNaN = true := by
  rw [isNaN_mul, (beq_iff hw value?_zero).2 rfl, show infinity.isInf = true from rfl]
  simp

theorem isNaN_interpolated (h : (w * (b - a)).isNaN = true) :
    interpolated a b w = notANumber := by
  refine eq_notANumber ?_
  show (a + w * (b - a)).isNaN = true
  rw [isNaN_add, h]
  simp

theorem not_le_neg_infinity (ha : value? a = some A) : ¬ a ≤ -infinity := by
  rw [le_iff_unpack, show (-infinity).toModel.unpack = .infinity .negative from rfl]
  obtain ⟨s, hua, -⟩ | ⟨s, m, q, hm, hua, -⟩ := unpack_of_value? ha <;>
    rw [hua] <;> cases s <;> exact Bool.false_ne_true

theorem not_infinity_le (hb : value? b = some B) : ¬ infinity ≤ b := by
  rw [le_iff_unpack, unpack_infinity]
  obtain ⟨s, hub, -⟩ | ⟨s, m, q, hm, hub, -⟩ := unpack_of_value? hb <;>
    rw [hub] <;> cases s <;> exact Bool.false_ne_true

theorem eq_infinity_of_le (hb : b.isNaN = false) (h : infinity ≤ b) : b = infinity := by
  obtain ⟨B, hB⟩ | rfl | rfl := finite_or_infinite hb
  · exact absurd h (not_infinity_le hB)
  · rfl
  · exact absurd h (by decide)

/-- Only finite doubles have a finite difference. -/
theorem finite_of_difference (ha : a.isNaN = false) (hb : b.isNaN = false) (hle : a ≤ b)
    (hd : (b - a).isFinite = true) : (∃ A, value? a = some A) ∧ ∃ B, value? b = some B := by
  have hinfinite : (b - a) ≠ infinity := fun h => by
    rw [h] at hd
    exact absurd hd (by decide)
  obtain ⟨A, hA⟩ | rfl | rfl := finite_or_infinite ha
  · obtain ⟨B, hB⟩ | rfl | rfl := finite_or_infinite hb
    · exact ⟨⟨A, hA⟩, B, hB⟩
    · exact absurd (infinity_sub hA) hinfinite
    · exact absurd hle (not_le_neg_infinity hA)
  · obtain rfl := eq_infinity_of_le hb hle
    exact absurd hd (by decide)
  · obtain ⟨B, hB⟩ | rfl | rfl := finite_or_infinite hb
    · exact absurd (sub_neg_infinity hB) hinfinite
    · exact absurd hd (by decide)
    · exact absurd hd (by decide)

/-- The difference of a finite double and one above it is finite or infinity. -/
theorem difference_cases (ha : value? a = some A) (hb : b.isNaN = false) (hle : a ≤ b) :
    (b - a).isFinite = true ∨ b - a = infinity := by
  obtain ⟨B, hB⟩ | rfl | rfl := finite_or_infinite hb
  · have hnonneg : 0 ≤ B - A := sub_nonneg.2 ((le_iff ha hB).1 hle)
    obtain ⟨u, hu, -⟩ | hinfinite := (sub_nearest hB ha).closest_or_infinity hnonneg
    · exact .inl (isFinite_iff.2 ⟨u, hu⟩)
    · exact .inr hinfinite
  · exact .inr (infinity_sub ha)
  · exact absurd hle (not_le_neg_infinity ha)

/-- From an infinity there is no way to another number. -/
theorem interpolated_of_infinite (ha : a.isNaN = false) (hinfinite : a.isFinite = false)
    (hb : b.isNaN = false) (hle : a ≤ b) (hw : value? w = some W) (hW : 0 ≤ W) :
    interpolated a b w = notANumber := by
  have hlost : (b - a).isNaN = true → interpolated a b w = notANumber := by
    intro h
    refine isNaN_interpolated ?_
    rw [isNaN_mul, h]
    simp
  obtain ⟨A, hA⟩ | rfl | rfl := finite_or_infinite ha
  · rw [isFinite_iff.2 ⟨A, hA⟩] at hinfinite
    cases hinfinite
  · obtain rfl := eq_infinity_of_le hb hle
    exact hlost (by rfl)
  · have hfar : b - -infinity = infinity → interpolated (-infinity) b w = notANumber := by
      intro hd
      rcases hW.eq_or_lt with rfl | hpos
      · exact isNaN_interpolated (by rw [hd]; exact isNaN_zero_mul_infinity hw)
      · unfold interpolated
        rw [hd, mul_infinity hw hpos]
        rfl
    obtain ⟨B, hB⟩ | rfl | rfl := finite_or_infinite hb
    · exact hfar (sub_neg_infinity hB)
    · exact hfar (by rfl)
    · exact hlost (by rfl)

/-- Beyond the range of differences the weight decides. -/
theorem interpolated_of_overflow (ha : value? a = some A) (hb : b.isNaN = false) (hle : a ≤ b)
    (hd : (b - a).isFinite = false) (hw : value? w = some W) :
    (0 < W → interpolated a b w = infinity) ∧ (W = 0 → interpolated a b w = notANumber) := by
  have hinfinite : b - a = infinity :=
    (difference_cases ha hb hle).resolve_left (by rw [hd]; exact Bool.false_ne_true)
  constructor
  · intro hpos
    unfold interpolated
    rw [hinfinite, mul_infinity hw hpos, add_infinity ha]
  · rintro rfl
    exact isNaN_interpolated (by rw [hinfinite]; exact isNaN_zero_mul_infinity hw)

end Number

end ColumnQuery
