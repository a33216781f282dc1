/-
  Doubles that are one number.

  There is one not-a-number (`eq_notANumber`) and there are two zeros (`eq_zero_of_ofFloat`); any
  other number has one double. So keys take two doubles for one number if they are equal or if both
  are zeros (`same_iff`), whereas the order of sort keys goes by bit patterns and tells any two
  doubles apart (`order_eq_eq_iff`).
-/
import ColumnQuery.Proofs.Number.Negated

namespace ColumnQuery

namespace Number

open Float.Model

variable {x y z : Float}

theorem same_refl (x : Float) : same x x = true := beq_self_eq_true _

theorem same_symm (h : same x y = true) : same y x = true := by
  unfold same at h ⊢
  rw [eq_of_beq h]
  exact beq_self_eq_true _

theorem same_trans (hxy : same x y = true) (hyz : same y z = true) : same x z = true := by
  unfold same at hxy hyz ⊢
  rw [eq_of_beq hxy]
  exact hyz

/-! ## Not-a-number -/

theorem ofFloat_eq_nan_iff : Binary64.ofFloat x = .nan ↔ x.isNaN = true := by
  rw [ofFloat_eq_ofUnpacked]
  show _ ↔ x.toModel.unpack.isNaN = true
  cases x.toModel.unpack with
  | notANumber => exact ⟨fun _ => rfl, fun _ => rfl⟩
  | _ => exact ⟨nofun, nofun⟩

/-- Only not-a-number has its bit pattern. -/
theorem canonicalBits_eq_nan_iff : canonicalBits x = 0x7ff8000000000000 ↔ x.isNaN = true := by
  rw [← ofFloat_eq_nan_iff]
  unfold canonicalBits
  constructor
  · intro h
    split at h
    next hnan => exact hnan
    next => cases h
    next =>
      unfold Binary64.ofFloat
      rw [h]
      rfl
  · intro h
    rw [h]

theorem isNaN_of_same (h : same x y = true) : x.isNaN = y.isNaN := by
  rw [Bool.eq_iff_iff, ← canonicalBits_eq_nan_iff, ← canonicalBits_eq_nan_iff, eq_of_beq h]

theorem eq_of_toBits (h : x.toBits.toNat = y.toBits.toNat) : x = y :=
  ext_bits (BitVec.eq_of_toNat_eq h)

theorem eq_notANumber (h : x.isNaN = true) : x = notANumber := by
  have hbits : (UnpackedFloat.unpack Format.binary64 (bits x)).isNaN = true := h
  rw [isNaN_unpack, Bool.and_eq_true, decide_eq_true_eq, Bool.not_eq_true', decide_eq_false_iff_not]
    at hbits
  refine ext_bits ((x.toModel.valid.eq_packedNaN hbits.1 hbits.2).trans ?_)
  rfl

/-! ## The two zeros -/

theorem toBits_zero : (0.0 : Float).toBits.toNat = 0 := by rfl

theorem toBits_neg_zero : (-0.0 : Float).toBits.toNat = 2 ^ 63 := by rfl

theorem eq_zero_of_ofFloat {negative : Bool} {e : Int}
    (h : Binary64.ofFloat x = .finite negative 0 e) : x = 0.0 ∨ x = -0.0 := by
  have hlt : x.toBits.toNat < 2 ^ 64 := x.toBits.toNat_lt
  have hbits : x.toBits.toNat = 0 ∨ x.toBits.toNat = 2 ^ 63 := by
    unfold Binary64.ofFloat Binary64.ofBits Binary64.hiddenBit at h
    dsimp only at h
    split at h
    · split at h <;> cases h
    · split at h
      · injection h
        omega
      · injection h
        omega
  rcases hbits with hzero | hzero
  · exact .inl (eq_of_toBits (hzero.trans toBits_zero.symm))
  · exact .inr (eq_of_toBits (hzero.trans toBits_neg_zero.symm))

/-- Any other number has the bit pattern of its double. -/
theorem canonicalBits_of_ne_zero (hx : x.isNaN = false) (h : canonicalBits x ≠ 0) :
    canonicalBits x = x.toBits.toNat := by
  unfold canonicalBits at h ⊢
  split at h
  next hnan =>
    rw [ofFloat_eq_nan_iff, hx] at hnan
    cases hnan
  next => exact absurd rfl h
  next => rfl

/-- Only the zeros have the bit pattern of zero. -/
theorem canonicalBits_eq_zero_iff : canonicalBits x = 0 ↔ x = 0.0 ∨ x = -0.0 := by
  constructor
  · intro h
    unfold canonicalBits at h
    split at h
    next => cases h
    next hzero => exact eq_zero_of_ofFloat hzero
    next => exact .inl (eq_of_toBits (h.trans toBits_zero.symm))
  · rintro (rfl | rfl) <;> rfl

/-! ## Equality and order -/

/-- Two doubles are one number if they are equal, and if both are zeros. -/
theorem same_iff : same x y = true ↔ x = y ∨ (x = 0.0 ∨ x = -0.0) ∧ (y = 0.0 ∨ y = -0.0) := by
  unfold same
  rw [beq_iff_eq]
  constructor
  · intro h
    rcases hx : x.isNaN with _ | _
    · by_cases hzero : canonicalBits x = 0
      · exact .inr ⟨canonicalBits_eq_zero_iff.1 hzero, canonicalBits_eq_zero_iff.1 (h ▸ hzero)⟩
      · have hy : y.isNaN = false := (isNaN_of_same (beq_iff_eq.2 h)).symm.trans hx
        exact .inl (eq_of_toBits
          ((canonicalBits_of_ne_zero hx hzero).symm.trans
            (h.trans (canonicalBits_of_ne_zero hy (h ▸ hzero)))))
    · have hy : y.isNaN = true := (isNaN_of_same (beq_iff_eq.2 h)).symm.trans hx
      exact .inl ((eq_notANumber hx).trans (eq_notANumber hy).symm)
  · rintro (rfl | ⟨hx, hy⟩)
    · rfl
    · rw [canonicalBits_eq_zero_iff.2 hx, canonicalBits_eq_zero_iff.2 hy]

theorem place_inj (h : place x = place y) : x = y := by
  have hx : x.toBits.toNat < 2 ^ 64 := x.toBits.toNat_lt
  have hy : y.toBits.toNat < 2 ^ 64 := y.toBits.toNat_lt
  refine eq_of_toBits ?_
  unfold place at h
  simp only [Nat.testBit_eq_decide_div_mod_eq, decide_eq_true_eq] at h
  split at h <;> split at h <;> omega

/-- The order of sort keys tells all doubles apart. -/
theorem order_eq_eq_iff : order x y = .eq ↔ x = y := by
  unfold order
  rw [Int.compare_eq_eq]
  exact ⟨place_inj, congrArg place⟩

/-! ## Arithmetic that does not tell the zeros apart -/

theorem unpack_neg_zero : (-0.0 : Float).toModel.unpack = .zero .negative := by rfl

theorem same_zeros (s t : UnpackedFloat.Sign) :
    same (.ofModel (pack (.zero s))) (.ofModel (pack (.zero t))) = true := by
  cases s <;> cases t <;> rfl

/-- Two results are one number if they are for equal operands and for the two zeros. -/
theorem same_congr {f : Float → Float} (hzeros : same (f 0.0) (f (-0.0)) = true)
    (h : same x y = true) : same (f x) (f y) = true := by
  rcases same_iff.1 h with rfl | ⟨rfl | rfl, rfl | rfl⟩
  · exact same_refl _
  · exact same_refl _
  · exact hzeros
  · exact same_symm hzeros
  · exact same_refl _

/-- Adding a zero changes at most the sign of a zero. -/
theorem same_add_left (z : Float) (h : same x y = true) : same (z + x) (z + y) = true := by
  refine same_congr (f := (z + ·)) ?_ h
  show same (.ofModel (pack (UnpackedFloat.add Format.binary64 z.toModel.unpack
    (0.0 : Float).toModel.unpack))) (.ofModel (pack (UnpackedFloat.add Format.binary64
      z.toModel.unpack (-0.0 : Float).toModel.unpack))) = true
  rw [unpack_zero, unpack_neg_zero]
  cases z.toModel.unpack with
  | notANumber | infinity s | finite s m e hm => exact same_refl _
  | zero s => cases s <;> exact same_zeros _ _

/-- A product with a zero is not-a-number or a zero. -/
theorem same_mul_left (z : Float) (h : same x y = true) : same (z * x) (z * y) = true := by
  refine same_congr (f := (z * ·)) ?_ h
  show same (.ofModel (pack (UnpackedFloat.mul Format.binary64 z.toModel.unpack
    (0.0 : Float).toModel.unpack))) (.ofModel (pack (UnpackedFloat.mul Format.binary64
      z.toModel.unpack (-0.0 : Float).toModel.unpack))) = true
  rw [unpack_zero, unpack_neg_zero]
  cases z.toModel.unpack with
  | notANumber | infinity s => exact same_refl _
  | zero s | finite s m e hm => exact same_zeros _ _

theorem same_mul_right (z : Float) (h : same x y = true) : same (x * z) (y * z) = true := by
  refine same_congr (f := (· * z)) ?_ h
  show same (.ofModel (pack (UnpackedFloat.mul Format.binary64 (0.0 : Float).toModel.unpack
    z.toModel.unpack))) (.ofModel (pack (UnpackedFloat.mul Format.binary64
      (-0.0 : Float).toModel.unpack z.toModel.unpack))) = true
  rw [unpack_zero, unpack_neg_zero]
  cases z.toModel.unpack with
  | notANumber | infinity s => exact same_refl _
  | zero s | finite s m e hm => exact same_zeros _ _

theorem same_sub_right (z : Float) (h : same x y = true) : same (x - z) (y - z) = true := by
  refine same_congr (f := (· - z)) ?_ h
  show same (.ofModel (pack (UnpackedFloat.sub Format.binary64 (0.0 : Float).toModel.unpack
    z.toModel.unpack))) (.ofModel (pack (UnpackedFloat.sub Format.binary64
      (-0.0 : Float).toModel.unpack z.toModel.unpack))) = true
  rw [unpack_zero, unpack_neg_zero]
  cases z.toModel.unpack with
  | notANumber | infinity s | finite s m e hm => exact same_refl _
  | zero s => cases s <;> exact same_zeros _ _

/-- What is equal for the two zeros is equal for doubles that are one number. -/
theorem eq_of_same {α : Type} {f : Float → α} (hzeros : f 0.0 = f (-0.0))
    (h : same x y = true) : f x = f y := by
  rcases same_iff.1 h with rfl | ⟨rfl | rfl, rfl | rfl⟩
  · rfl
  · rfl
  · exact hzeros
  · exact hzeros.symm
  · rfl

end Number

end ColumnQuery
