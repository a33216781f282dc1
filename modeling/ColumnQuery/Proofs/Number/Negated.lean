/-
  Negated doubles.

  Negation turns the sign of a double and keeps its exponent and its mantissa (`bits_neg`), so
  that it stands for the opposite number (`ofFloat_neg`) and twice is nothing (`neg_neg`). The text
  of a negative number is a minus before the text of the opposite one, as long as whole numbers are
  in the range of 64 bits (`text_negative`).
-/
import ColumnQuery.Number.Text
import ColumnQuery.Proofs.Number.Whole

namespace ColumnQuery

/-- The opposite number. -/
def Binary64.negated : Binary64 → Binary64
  | .nan => .nan
  | .infinite negative => .infinite !negative
  | .finite negative m e => .finite (!negative) m e

namespace Number

open Float.Model

variable {x : Float}

/-! ## Bits -/

/-- A double is put together from its sign, its exponent and its mantissa. -/
theorem packComponents_unpack (b : BitVec Format.binary64.numBits) :
    UnpackedFloat.packComponents Format.binary64 (.ofBitVec (UnpackedFloat.unpackSign b))
      (UnpackedFloat.unpackExponent b) (UnpackedFloat.unpackMantissa b) = b := by
  have hsign : (UnpackedFloat.Sign.ofBitVec (UnpackedFloat.unpackSign b)).toBitVec
      = UnpackedFloat.unpackSign b := by
    generalize UnpackedFloat.unpackSign b = s
    revert s
    decide
  unfold UnpackedFloat.packComponents
  rw [hsign]
  unfold UnpackedFloat.unpackSign UnpackedFloat.unpackExponent UnpackedFloat.unpackMantissa
  refine BitVec.eq_of_getLsbD_eq fun i hi => ?_
  have hi' : i < 64 := hi
  simp only [BitVec.getLsbD_append, BitVec.getLsbD_cast, BitVec.getLsbD_extractLsb]
  grind

theorem one_append_toNat (v : BitVec 52) : (1#1 ++ v).toNat = 2 ^ 52 + v.toNat := by
  rw [BitVec.toNat_append, ← Nat.shiftLeft_add_eq_or_of_lt v.isLt, Nat.shiftLeft_eq]
  rfl

/-- Negation keeps exponent and mantissa. -/
theorem pack_neg_unpack {b : BitVec Format.binary64.numBits}
    (h : (UnpackedFloat.unpack Format.binary64 b).isNaN = false) :
    UnpackedFloat.pack Format.binary64 (UnpackedFloat.unpack Format.binary64 b).neg
      = UnpackedFloat.packComponents Format.binary64 (-.ofBitVec (UnpackedFloat.unpackSign b))
          (UnpackedFloat.unpackExponent b) (UnpackedFloat.unpackMantissa b) := by
  have hbias : ((Format.binary64.exponentBias : Nat) : Int) = 1023 := rfl
  have hbits : ((Format.binary64.mantissaBitsWithoutImplicit : Nat) : Int) = 52 := rfl
  generalize hs : UnpackedFloat.Sign.ofBitVec (UnpackedFloat.unpackSign b) = s
  have hfield : (UnpackedFloat.unpackExponent b).toNat < 2048 :=
    (UnpackedFloat.unpackExponent b).isLt
  have hfraction : (UnpackedFloat.unpackMantissa b).toNat < 2 ^ 52 :=
    (UnpackedFloat.unpackMantissa b).isLt
  unfold UnpackedFloat.unpack at h ⊢
  dsimp only at h ⊢
  rw [hs] at h ⊢
  by_cases hinfinite : UnpackedFloat.unpackExponent b = -1#_
  · rw [if_pos hinfinite] at h ⊢
    by_cases hzero : UnpackedFloat.unpackMantissa b = 0#_
    · rw [if_pos hzero, hinfinite, hzero]
      rfl
    · rw [if_neg hzero] at h
      cases h
  · rw [if_neg hinfinite]
    by_cases hsmall : UnpackedFloat.unpackExponent b = 0#_
    · rw [if_pos hsmall]
      by_cases hzero : UnpackedFloat.unpackMantissa b = 0#_
      · rw [dif_pos hzero, hsmall, hzero]
        rfl
      · -- the leading bit of a small mantissa is below place 52
        rw [dif_neg hzero]
        have hne : (UnpackedFloat.unpackMantissa b).toNat ≠ 0 :=
          fun heq => hzero (BitVec.eq_of_toNat_eq heq)
        have hlog : (UnpackedFloat.unpackMantissa b).toNat.log2 < 52 :=
          (Nat.log2_lt hne).2 hfraction
        have hfieldZero : (UnpackedFloat.unpackExponent b).toNat = 0 := by
          rw [hsmall]
          rfl
        have hbiased : (((UnpackedFloat.unpackExponent b).toNat : Int)
            - (Format.binary64.exponentBias + Format.binary64.mantissaBitsWithoutImplicit) + 1
            + Format.binary64.exponentBias + Format.binary64.mantissaBitsWithoutImplicit).toNat
            = 1 := by
          rw [hbias, hbits, hfieldZero]
          rfl
        unfold UnpackedFloat.neg UnpackedFloat.pack
        dsimp only
        rw [hbiased, if_neg (by decide), if_neg (by show _ ≠ 53; omega), BitVec.ofNat_toNat,
          BitVec.setWidth_eq, hsmall]
    · rw [if_neg hsmall]
      have hlog : (1#1 ++ UnpackedFloat.unpackMantissa b).toNat.log2 + 1
          = Format.binary64.mantissaBits := by
        rw [one_append_toNat]
        exact congrArg (· + 1) ((Nat.log2_eq_iff (by omega)).2 ⟨by omega, by omega⟩)
      have hmax : (UnpackedFloat.unpackExponent b).toNat ≠ 2047 :=
        fun heq => hinfinite (BitVec.eq_of_toNat_eq heq)
      have hbiased : (((UnpackedFloat.unpackExponent b).toNat : Int)
          - (Format.binary64.exponentBias + Format.binary64.mantissaBitsWithoutImplicit)
          + Format.binary64.exponentBias + Format.binary64.mantissaBitsWithoutImplicit).toNat
          = (UnpackedFloat.unpackExponent b).toNat := by
        rw [hbias, hbits]
        omega
      have hmantissa : BitVec.ofNat 52 (1#1 ++ UnpackedFloat.unpackMantissa b).toNat
          = UnpackedFloat.unpackMantissa b := by
        refine BitVec.eq_of_toNat_eq ?_
        rw [one_append_toNat, BitVec.toNat_ofNat]
        omega
      unfold UnpackedFloat.neg UnpackedFloat.pack
      dsimp only
      rw [hbiased, if_neg (by show ¬ 2048 ≤ _; omega), if_pos hlog, BitVec.ofNat_toNat,
        BitVec.setWidth_eq, hmantissa]

/-- The bits of a double. -/
def bits (x : Float) : BitVec Format.binary64.numBits := x.toModel.toBits.toBitVec

theorem ext_bits {x y : Float} (h : bits x = bits y) : x = y := by
  obtain ⟨⟨a, ha⟩⟩ := x
  obtain ⟨⟨b, hb⟩⟩ := y
  have hbits : a = b := UInt64.toBitVec_inj.1 h
  subst hbits
  rfl

theorem bits_neg (h : x.isNaN = false) :
    bits (-x) = UnpackedFloat.packComponents Format.binary64
      (-.ofBitVec (UnpackedFloat.unpackSign (bits x))) (UnpackedFloat.unpackExponent (bits x))
      (UnpackedFloat.unpackMantissa (bits x)) :=
  pack_neg_unpack (b := bits x) h

theorem isNaN_neg (x : Float) : (-x).isNaN = x.isNaN := by
  have hneg : (-x).isNaN = x.toModel.unpack.neg.isNaN := isNaN_ofModel_pack _
  have hx : x.isNaN = x.toModel.unpack.isNaN := rfl
  rw [hneg, hx]
  cases x.toModel.unpack <;> rfl

/-- Negation undoes itself. -/
theorem neg_neg (h : x.isNaN = false) : - -x = x := by
  refine ext_bits ?_
  have hsign : ∀ s : UnpackedFloat.Sign, -.ofBitVec (-s).toBitVec = s := by
    intro s
    cases s <;> rfl
  rw [bits_neg ((isNaN_neg x).trans h), bits_neg h, unpackSign_packComponents,
    UnpackedFloat.unpackExponent_packComponents, UnpackedFloat.unpackMantissa_packComponents, hsign]
  exact packComponents_unpack (bits x)

/-! ## Numbers -/

def isMinus : UnpackedFloat.Sign → Bool
  | .negative => true
  | .positive => false

/-- The number that a sign, an exponent field and a fraction stand for. -/
def ofFields (negative : Bool) (field fraction : Nat) : Binary64 :=
  if field = 2047 then if fraction = 0 then .infinite negative else .nan
  else if field = 0 then .finite negative fraction (-1074)
  else .finite negative (fraction + Binary64.hiddenBit) ((field : Int) - 1075)

theorem ofBits_packComponents (s : UnpackedFloat.Sign) (e : BitVec 11) (m : BitVec 52) :
    Binary64.ofBits (UnpackedFloat.packComponents Format.binary64 s e m).toNat
      = ofFields (isMinus s) e.toNat m.toNat := by
  have he : e.toNat < 2 ^ 11 := e.isLt
  have hm : m.toNat < 2 ^ 52 := m.isLt
  have htoNat : (UnpackedFloat.packComponents Format.binary64 s e m).toNat
      = (s.toBitVec.toNat * 2 ^ 11 + e.toNat) * 2 ^ 52 + m.toNat := by
    unfold UnpackedFloat.packComponents
    rw [BitVec.toNat_append, BitVec.toNat_append, ← Nat.shiftLeft_add_eq_or_of_lt e.isLt,
      ← Nat.shiftLeft_add_eq_or_of_lt m.isLt, Nat.shiftLeft_eq, Nat.shiftLeft_eq]
  have hsign : s.toBitVec.toNat < 2 ∧ decide (s.toBitVec.toNat = 1) = isMinus s := by
    cases s <;> decide
  obtain ⟨hlt, hminus⟩ := hsign
  generalize s.toBitVec.toNat = σ at htoNat hlt hminus
  have hbit : ((σ * 2 ^ 11 + e.toNat) * 2 ^ 52 + m.toNat).testBit 63 = isMinus s := by
    rw [Nat.testBit_eq_decide_div_mod_eq, ← hminus]
    exact decide_eq_decide.2 (by omega)
  have hfield : ((σ * 2 ^ 11 + e.toNat) * 2 ^ 52 + m.toNat) / Binary64.hiddenBit % 2048
      = e.toNat := by
    unfold Binary64.hiddenBit
    omega
  have hfraction : ((σ * 2 ^ 11 + e.toNat) * 2 ^ 52 + m.toNat) % Binary64.hiddenBit = m.toNat := by
    unfold Binary64.hiddenBit
    omega
  rw [htoNat]
  simp only [Binary64.ofBits, hbit, hfield, hfraction]
  rfl

theorem ofFloat_eq (x : Float) : Binary64.ofFloat x
    = ofFields (isMinus (.ofBitVec (UnpackedFloat.unpackSign (bits x))))
        (UnpackedFloat.unpackExponent (bits x)).toNat
        (UnpackedFloat.unpackMantissa (bits x)).toNat := by
  rw [← ofBits_packComponents, packComponents_unpack]
  rfl

/-- A double stands for the opposite of what its negation stands for. -/
theorem ofFloat_neg (h : x.isNaN = false) :
    Binary64.ofFloat (-x) = (Binary64.ofFloat x).negated := by
  have hsign : ∀ s : UnpackedFloat.Sign, isMinus (.ofBitVec (-s).toBitVec) = !isMinus s := by
    intro s
    cases s <;> rfl
  rw [ofFloat_eq, ofFloat_eq, bits_neg h, unpackSign_packComponents,
    UnpackedFloat.unpackExponent_packComponents, UnpackedFloat.unpackMantissa_packComponents, hsign]
  unfold ofFields Binary64.negated
  split
  · split <;> rfl
  · split <;> rfl

/-! ## Negative numbers -/

/-- What an unpacked double stands for. -/
def ofUnpacked : UnpackedFloat → Binary64
  | .notANumber => .nan
  | .infinity s => .infinite (isMinus s)
  | .zero s => .finite (isMinus s) 0 (-1074)
  | .finite s m e _ => .finite (isMinus s) m e

theorem ofFloat_eq_ofUnpacked (x : Float) : Binary64.ofFloat x = ofUnpacked x.toModel.unpack := by
  have hbias : ((Format.binary64.exponentBias : Nat) : Int) = 1023 := rfl
  rw [ofFloat_eq]
  show _ = ofUnpacked (UnpackedFloat.unpack Format.binary64 (bits x))
  generalize bits x = b
  have hfield : (UnpackedFloat.unpackExponent b).toNat < 2048 :=
    (UnpackedFloat.unpackExponent b).isLt
  unfold ofFields UnpackedFloat.unpack
  dsimp only
  by_cases hinfinite : UnpackedFloat.unpackExponent b = -1#11
  · have hzero : ((UnpackedFloat.unpackMantissa b).toNat = 0)
        = (UnpackedFloat.unpackMantissa b = 0#52) :=
      propext ⟨fun heq => BitVec.eq_of_toNat_eq heq, fun heq => by rw [heq]; rfl⟩
    rw [if_pos hinfinite, if_pos (by rw [hinfinite]; rfl)]
    simp only [hzero]
    split <;> rfl
  · have hne : (UnpackedFloat.unpackExponent b).toNat ≠ 2047 :=
      fun heq => hinfinite (BitVec.eq_of_toNat_eq heq)
    rw [if_neg hinfinite, if_neg hne]
    by_cases hsmall : UnpackedFloat.unpackExponent b = 0#11
    · have hfieldZero : (UnpackedFloat.unpackExponent b).toNat = 0 := by
        rw [hsmall]
        rfl
      rw [if_pos hsmall, if_pos hfieldZero]
      by_cases hzero : UnpackedFloat.unpackMantissa b = 0#52
      · rw [dif_pos hzero, hzero]
        rfl
      · rw [dif_neg hzero, hfieldZero]
        rfl
    · have hpos : (UnpackedFloat.unpackExponent b).toNat ≠ 0 :=
        fun heq => hsmall (BitVec.eq_of_toNat_eq heq)
      have hmantissa : (1#1 ++ UnpackedFloat.unpackMantissa b).toNat
          = (UnpackedFloat.unpackMantissa b).toNat + Binary64.hiddenBit := by
        rw [one_append_toNat, Nat.add_comm]
        rfl
      have hexponent : ((UnpackedFloat.unpackExponent b).toNat : Int)
          - (Format.binary64.exponentBias + Format.binary64.mantissaBitsWithoutImplicit)
          = (UnpackedFloat.unpackExponent b).toNat - 1075 := by
        rw [hbias]
        rfl
      rw [if_neg hsmall, if_neg hpos]
      show _ = Binary64.finite _ (1#1 ++ UnpackedFloat.unpackMantissa b).toNat _
      rw [hmantissa, hexponent]

theorem isNaN_of_ofFloat (h : Binary64.ofFloat x ≠ .nan) : x.isNaN = false := by
  rw [ofFloat_eq_ofUnpacked] at h
  show x.toModel.unpack.isNaN = false
  cases hu : x.toModel.unpack with
  | notANumber =>
    rw [hu] at h
    exact absurd rfl h
  | _ => rfl

/-- A whole number above `-2^53` is the integer part of its double. -/
theorem toInt64_neg_ofNat {n : Nat} (h : n < 2 ^ 53) : toInt64 (-ofNat n) = -(n : Int) := by
  by_cases hpos : 0 < n
  · have hfinite := ofFloat_ofNat hpos h
    have hnumber : (ofNat n).isNaN = false := isNaN_of_ofFloat (by rw [hfinite]; exact nofun)
    unfold toInt64 clamped
    rw [ofFloat_neg hnumber, hfinite]
    unfold Binary64.negated
    dsimp only
    rw [wholePart_aligned (aligned_bounds hpos h).1, if_pos (by rfl)]
    unfold minInt64 maxInt64
    omega
  · obtain rfl : n = 0 := by omega
    decide +kernel

/-- A number below zero stands for an infinity or for a number with a minus. -/
theorem ofFloat_of_lt_zero (h : x < 0.0) : x.isNaN = false ∧
    (Binary64.ofFloat x = .infinite true ∨ ∃ m e, 0 < m ∧ Binary64.ofFloat x = .finite true m e) := by
  have hlt : x.toModel.unpack.lt (.zero .positive) = true := by
    rw [← unpack_zero]
    exact of_decide_eq_true h
  rw [ofFloat_eq_ofUnpacked]
  show x.toModel.unpack.isNaN = false ∧ _
  cases hu : x.toModel.unpack with
  | notANumber =>
    rw [hu] at hlt
    cases hlt
  | infinity s =>
    rw [hu] at hlt
    cases s with
    | negative => exact ⟨rfl, .inl rfl⟩
    | positive => cases hlt
  | zero s =>
    rw [hu] at hlt
    cases hlt
  | finite s m e hm =>
    rw [hu] at hlt
    cases s with
    | negative => exact ⟨rfl, .inr ⟨m, e, hm, rfl⟩⟩
    | positive => cases hlt

theorem lt_zero_of_ofFloat {m : Nat} {e : Int} (h : Binary64.ofFloat x = .finite true m e)
    (hm : 0 < m) : x < 0.0 := by
  rw [ofFloat_eq_ofUnpacked] at h
  refine decide_eq_true (p := x.toModel.unpack.lt (0.0 : Float).toModel.unpack = true) ?_
  rw [unpack_zero]
  unfold ofUnpacked at h
  split at h
  next => cases h
  next => cases h
  next =>
    injection h with _ hzero
    omega
  next s _ _ _ hs =>
    rw [hs]
    injection h with hsign
    cases s with
    | negative => rfl
    | positive => cases hsign

/-! ## Texts of negative numbers -/

theorem wholePart_pos {m : Nat} {e : Int} (hm : 0 < m) (h : Binary64.isWhole m e = true) :
    0 < Binary64.wholePart m e := by
  unfold Binary64.wholePart
  split
  next => exact Nat.mul_pos hm (Nat.pow_pos (by decide))
  next hneg =>
    unfold Binary64.isWhole at h
    have hmod : m % Nat.pow 2 (-e).toNat = 0 := by simpa [hneg] using h
    exact Nat.div_pos (Nat.le_of_dvd hm (Nat.dvd_of_mod_eq_zero hmod)) (Nat.pow_pos (by decide))

theorem positional_negative (m : Nat) (e : Int) :
    (Decimal.shortest true m e).positional 0 = "-" ++ (Decimal.shortest false m e).positional 0 := by
  have hminus : Decimal.shortest true m e = { Decimal.shortest false m e with negative := true } := by
    unfold Decimal.shortest
    split <;> rfl
  have hplus : (Decimal.shortest false m e).negative = false := by
    unfold Decimal.shortest
    split <;> rfl
  rw [hminus]
  unfold Decimal.positional
  rw [hplus]
  simp only [if_true, Bool.false_eq_true, if_false, String.empty_append]

/-- Whole and beyond the range of 64 bits. -/
def isHeld (x : Float) : Bool :=
  match Binary64.ofFloat x with
  | .finite _ m e => Binary64.isWhole m e && decide (2 ^ 63 ≤ Binary64.wholePart m e)
      && decide (Binary64.wholePart m e < wholeLimit)
  | _ => false

/-- The text of a negative number is a minus before the text of the opposite one. -/
theorem text_negative (h : x < 0.0) (hheld : isHeld x = false) : text x = "-" ++ text (-x) := by
  obtain ⟨hnumber, hinfinite | ⟨m, e, hm, hfinite⟩⟩ := ofFloat_of_lt_zero h
  · unfold text
    rw [ofFloat_neg hnumber, hinfinite]
    rfl
  · have hopposite : Binary64.ofFloat (-x) = .finite false m e := by
      rw [ofFloat_neg hnumber, hfinite]
      rfl
    unfold text
    rw [hfinite, hopposite]
    dsimp only
    split
    next hwhole =>
      obtain ⟨hwhole, hlimit⟩ := Bool.and_eq_true_iff.1 hwhole
      have hpos := wholePart_pos hm hwhole
      have hrange : Binary64.wholePart m e < 2 ^ 63 := by
        unfold isHeld at hheld
        rw [hfinite] at hheld
        simp only [hwhole, hlimit, Bool.true_and, Bool.and_true] at hheld
        exact Nat.not_le.1 (of_decide_eq_false hheld)
      have hplus : toInt64 (-x) = (Binary64.wholePart m e : Int) := by
        unfold toInt64 clamped minInt64 maxInt64
        rw [hopposite]
        simp only [Bool.false_eq_true, if_false]
        omega
      have hminus : toInt64 x = -(Binary64.wholePart m e : Int) := by
        unfold toInt64 clamped minInt64 maxInt64
        rw [hfinite]
        simp only [if_true]
        omega
      obtain ⟨k, hk⟩ : ∃ k, Binary64.wholePart m e = k + 1 := ⟨_, (Nat.succ_pred (by omega)).symm⟩
      rw [hplus, hminus, hk]
      rfl
    next => exact positional_negative m e

end Number

end ColumnQuery
