/-
  When arithmetic on doubles gives not-a-number.

  An operand that is not-a-number makes the result one. Otherwise the result is not-a-number if
  the operation has no result: infinities that cancel, zero times infinity, a quotient of two
  infinities or of two zeros, the root of a negative number. Rounding never makes one.
-/
import ColumnQuery.Number.Binary64

namespace ColumnQuery

namespace Number

open Float.Model

/-! ## Packed and unpacked numbers -/

theorem isNaN_unpack {spec : Format} (b : BitVec spec.numBits) :
    (UnpackedFloat.unpack spec b).isNaN
      = (decide (UnpackedFloat.unpackExponent b = -1#_) &&
          !decide (UnpackedFloat.unpackMantissa b = 0#_)) := by
  unfold UnpackedFloat.unpack
  dsimp only
  by_cases he : UnpackedFloat.unpackExponent b = -1#_
  · by_cases hm : UnpackedFloat.unpackMantissa b = 0#_
    · rw [if_pos he, if_pos hm, decide_eq_true he, decide_eq_true hm]
      rfl
    · rw [if_pos he, if_neg hm, decide_eq_true he, decide_eq_false hm]
      rfl
  · rw [if_neg he, decide_eq_false he, Bool.false_and]
    by_cases hzero : UnpackedFloat.unpackExponent b = 0#_
    · by_cases hm : UnpackedFloat.unpackMantissa b = 0#_
      · rw [if_pos hzero, dif_pos hm]
        rfl
      · rw [if_pos hzero, dif_neg hm]
        rfl
    · rw [if_neg hzero]
      rfl

theorem isNaN_unpack_packedInfinity (s : UnpackedFloat.Sign) :
    (UnpackedFloat.unpack Format.binary64 (UnpackedFloat.packedInfinity Format.binary64 s)).isNaN
      = false := by
  rw [isNaN_unpack]
  cases s <;> decide

/-- Packing rounds to an infinity or to a number. -/
theorem isNaN_unpack_pack (f : UnpackedFloat) :
    (UnpackedFloat.unpack Format.binary64 (UnpackedFloat.pack Format.binary64 f)).isNaN
      = f.isNaN := by
  fun_cases UnpackedFloat.pack Format.binary64 f with
  | case1 =>
    rw [isNaN_unpack]
    decide
  | case2 s => exact isNaN_unpack_packedInfinity s
  | case3 s =>
    rw [isNaN_unpack]
    cases s <;> decide
  | case4 s m e hm biasedExponent h => exact isNaN_unpack_packedInfinity s
  | case5 s m e hm actualMantissaBits biasedExponent h₁ h₂ =>
    have hlt : biasedExponent < 2047 := by
      have h : ¬ 2048 ≤ biasedExponent + 1 := h₁
      omega
    have hne : BitVec.ofNat 11 biasedExponent ≠ -1#11 := by
      intro heq
      have hnat := congrArg BitVec.toNat heq
      rw [BitVec.toNat_ofNat] at hnat
      have hmod : biasedExponent % 2 ^ 11 = biasedExponent := Nat.mod_eq_of_lt (by omega)
      rw [hmod] at hnat
      have h : biasedExponent = 2047 := hnat
      omega
    rw [isNaN_unpack, UnpackedFloat.unpackExponent_packComponents, decide_eq_false hne]
    rfl
  | case6 s m e hm actualMantissaBits biasedExponent h₁ h₂ =>
    rw [isNaN_unpack, UnpackedFloat.unpackExponent_packComponents, decide_eq_false (by decide)]
    rfl

theorem isNaN_ofModel_pack (f : UnpackedFloat) : (Float.ofModel (pack f)).isNaN = f.isNaN :=
  isNaN_unpack_pack f

theorem isNaN_roundWithAccuracy (spec : Format) (sign : UnpackedFloat.Sign) (mantissa : Nat)
    (exponent : Int) (accuracy : UnpackedFloat.Accuracy) :
    (UnpackedFloat.roundWithAccuracy spec sign mantissa exponent accuracy).isNaN = false := by
  have hrounded : ∀ (m : Nat) (e : Int) (hpos : ¬ m = 0 → 0 < m),
      (if h : m = 0 then UnpackedFloat.zero sign else .finite sign m e (hpos h)).isNaN = false := by
    intro m e hpos
    by_cases h : m = 0
    · rw [dif_pos h]
      rfl
    · rw [dif_neg h]
      rfl
  exact hrounded ..

theorem isNaN_normalize (spec : Format) (mantissa exponent : Int) (sign : UnpackedFloat.Sign) :
    (UnpackedFloat.normalize spec mantissa exponent sign).isNaN = false := by
  unfold UnpackedFloat.normalize
  split
  · exact isNaN_roundWithAccuracy ..
  · rfl
  · exact isNaN_roundWithAccuracy ..

/-! ## The operations -/

/-- A sum is not-a-number if an operand is, or if opposite infinities meet. -/
theorem isNaN_add (x y : Float) :
    (x + y).isNaN = (x.isNaN || y.isNaN || (x.isInf && y.isInf && !(x == y))) := by
  refine (isNaN_ofModel_pack _).trans ?_
  show (UnpackedFloat.add Format.binary64 x.toModel.unpack y.toModel.unpack).isNaN
    = (x.toModel.unpack.isNaN || y.toModel.unpack.isNaN || (x.toModel.unpack.isInf &&
        y.toModel.unpack.isInf && !x.toModel.unpack.beq y.toModel.unpack))
  cases x.toModel.unpack with
  | notANumber => rfl
  | infinity s =>
    cases y.toModel.unpack with
    | infinity t => cases s <;> cases t <;> rfl
    | _ => rfl
  | zero s =>
    cases y.toModel.unpack with
    | zero t => cases s <;> cases t <;> rfl
    | _ => rfl
  | finite s m e hm =>
    cases y.toModel.unpack with
    | finite t n k hn => exact isNaN_normalize ..
    | _ => rfl

/-- A difference is not-a-number if an operand is, or if an infinity loses itself. -/
theorem isNaN_sub (x y : Float) :
    (x - y).isNaN = (x.isNaN || y.isNaN || (x.isInf && y.isInf && x == y)) := by
  refine (isNaN_ofModel_pack _).trans ?_
  show (UnpackedFloat.sub Format.binary64 x.toModel.unpack y.toModel.unpack).isNaN
    = (x.toModel.unpack.isNaN || y.toModel.unpack.isNaN || (x.toModel.unpack.isInf &&
        y.toModel.unpack.isInf && x.toModel.unpack.beq y.toModel.unpack))
  cases x.toModel.unpack with
  | notANumber => rfl
  | infinity s =>
    cases y.toModel.unpack with
    | infinity t => cases s <;> cases t <;> rfl
    | _ => rfl
  | zero s =>
    cases y.toModel.unpack with
    | zero t => cases s <;> cases t <;> rfl
    | _ => rfl
  | finite s m e hm =>
    cases y.toModel.unpack with
    | finite t n k hn => exact isNaN_normalize ..
    | _ => rfl

theorem unpack_zero : (0.0 : Float).toModel.unpack = .zero .positive := by rfl

/-- A product is not-a-number if an operand is, or if zero meets an infinity. -/
theorem isNaN_mul (x y : Float) :
    (x * y).isNaN = (x.isNaN || y.isNaN || (x.isInf && y == 0.0) || (x == 0.0 && y.isInf)) := by
  refine (isNaN_ofModel_pack _).trans ?_
  show (UnpackedFloat.mul Format.binary64 x.toModel.unpack y.toModel.unpack).isNaN
    = (x.toModel.unpack.isNaN || y.toModel.unpack.isNaN
        || (x.toModel.unpack.isInf && y.toModel.unpack.beq (0.0 : Float).toModel.unpack)
        || (x.toModel.unpack.beq (0.0 : Float).toModel.unpack && y.toModel.unpack.isInf))
  rw [unpack_zero]
  cases x.toModel.unpack with
  | notANumber => rfl
  | infinity s =>
    cases y.toModel.unpack with
    | notANumber => rfl
    | infinity t | zero t | finite t n k hn => cases s <;> cases t <;> rfl
  | zero s =>
    cases y.toModel.unpack with
    | notANumber => rfl
    | infinity t | zero t | finite t n k hn => cases s <;> cases t <;> rfl
  | finite s m e hm =>
    cases y.toModel.unpack with
    | notANumber => rfl
    | infinity t | zero t => cases s <;> cases t <;> rfl
    | finite t n k hn => cases s <;> cases t <;> exact isNaN_roundWithAccuracy ..

/-- A quotient is not-a-number if an operand is, or of two infinities or two zeros. -/
theorem isNaN_div (x y : Float) :
    (x / y).isNaN = (x.isNaN || y.isNaN || (x.isInf && y.isInf) || (x == 0.0 && y == 0.0)) := by
  refine (isNaN_ofModel_pack _).trans ?_
  show (UnpackedFloat.div Format.binary64 x.toModel.unpack y.toModel.unpack).isNaN
    = (x.toModel.unpack.isNaN || y.toModel.unpack.isNaN
        || (x.toModel.unpack.isInf && y.toModel.unpack.isInf)
        || (x.toModel.unpack.beq (0.0 : Float).toModel.unpack
            && y.toModel.unpack.beq (0.0 : Float).toModel.unpack))
  rw [unpack_zero]
  cases x.toModel.unpack with
  | notANumber => rfl
  | infinity s =>
    cases y.toModel.unpack with
    | notANumber => rfl
    | infinity t | zero t | finite t n k hn => cases s <;> cases t <;> rfl
  | zero s =>
    cases y.toModel.unpack with
    | notANumber => rfl
    | infinity t | zero t | finite t n k hn => cases s <;> cases t <;> rfl
  | finite s m e hm =>
    cases y.toModel.unpack with
    | notANumber => rfl
    | infinity t | zero t => cases s <;> cases t <;> rfl
    | finite t n k hn => cases s <;> cases t <;> exact isNaN_roundWithAccuracy ..

/-- A root is not-a-number if the operand is, or is negative. -/
theorem isNaN_sqrt (x : Float) : x.sqrt.isNaN = (x.isNaN || decide (x < 0.0)) := by
  refine (isNaN_ofModel_pack _).trans ?_
  have hlt : decide (x < 0.0) = x.toModel.unpack.lt (0.0 : Float).toModel.unpack :=
    (Bool.decide_eq_true ..).trans (Bool.decide_eq_true ..)
  rw [hlt, unpack_zero]
  show (UnpackedFloat.sqrt Format.binary64 x.toModel.unpack).isNaN
    = (x.toModel.unpack.isNaN || x.toModel.unpack.lt (.zero .positive))
  cases x.toModel.unpack with
  | notANumber => rfl
  | infinity s => cases s <;> rfl
  | zero s => rfl
  | finite s m e hm =>
    cases s with
    | negative => rfl
    | positive => exact isNaN_roundWithAccuracy ..

end Number

end ColumnQuery
