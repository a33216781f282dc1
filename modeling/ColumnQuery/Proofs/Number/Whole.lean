/-
  Whole numbers as doubles.

  A whole number below `2^53` is a double: its leading bit is moved to place `52`, and nothing is
  rounded off (`ofNat_eq`). Read off the double it is the same number again (`ofFloat_ofNat`), which
  is its own integer part (`toInt64_ofNat`).
-/
import ColumnQuery.Proofs.Number.NotANumber
import Mathlib.Algebra.Ring.Nat

namespace ColumnQuery

namespace Number

open Float.Model

/-! ## Packed doubles -/

theorem toNat_packComponents {biased : Nat} (hb : biased < 2048) (m : Nat) :
    (UnpackedFloat.packComponents Format.binary64 .positive (BitVec.ofNat _ biased)
      (BitVec.ofNat _ m)).toNat = biased * Binary64.hiddenBit + m % Binary64.hiddenBit := by
  unfold UnpackedFloat.packComponents Binary64.hiddenBit
  rw [BitVec.toNat_append, BitVec.toNat_append]
  simp [UnpackedFloat.Sign.toBitVec]
  rw [Nat.mod_eq_of_lt hb, ← Nat.shiftLeft_add_eq_or_of_lt (by omega), Nat.shiftLeft_eq]

theorem unpackSign_packComponents {spec : Format} (sign : UnpackedFloat.Sign) (exponent mantissa) :
    UnpackedFloat.unpackSign (UnpackedFloat.packComponents spec sign exponent mantissa)
      = sign.toBitVec := by
  refine BitVec.eq_of_getLsbD_eq fun i hi => ?_
  obtain rfl : i = 0 := by omega
  unfold UnpackedFloat.unpackSign
  simp [UnpackedFloat.packComponents, BitVec.getLsbD_append, BitVec.getElem_append]

/-! ## Rounding -/

theorem repeat_shiftRightOne (m j : Nat) :
    j.repeat UnpackedFloat.ExtendedMantissa.shiftRightOne ⟨m * 2 ^ j, false, false⟩
      = ⟨m, false, false⟩ := by
  induction j generalizing m with
  | zero => simp [Nat.repeat]
  | succ j ih =>
    have h := ih (m * 2)
    rw [Nat.mul_assoc, ← Nat.pow_succ'] at h
    rw [Nat.repeat, h]
    simp [UnpackedFloat.ExtendedMantissa.shiftRightOne]

theorem log2_mul_pow {m : Nat} (hlow : 2 ^ 52 ≤ m) (hhigh : m < 2 ^ 53) (j : Nat) :
    (m * 2 ^ j).log2 = 52 + j := by
  have hpow : 0 < 2 ^ j := Nat.two_pow_pos j
  have hm : m * 2 ^ j ≠ 0 := Nat.mul_ne_zero (by omega) (by omega)
  refine (Nat.log2_eq_iff hm).2 ⟨?_, ?_⟩
  · rw [Nat.pow_add]
    exact Nat.mul_le_mul_right _ hlow
  · rw [show 52 + j + 1 = 53 + j by omega, Nat.pow_add]
    exact Nat.mul_lt_mul_of_pos_right hhigh hpow

theorem roundWithAccuracy_eq {spec : Format} {m : Nat} {e : Int} {a : UnpackedFloat.Accuracy}
    {p q : UnpackedFloat.ExtendedMantissa × Int} (sign : UnpackedFloat.Sign)
    (hp : UnpackedFloat.shiftToTargetExponent spec m e a = p)
    (hq : UnpackedFloat.shiftToTargetExponent spec p.1.roundedMantissa p.2 .exact = q)
    (hpos : 0 < q.1.mantissa) :
    UnpackedFloat.roundWithAccuracy spec sign m e a = .finite sign q.1.mantissa q.2 hpos := by
  subst hp hq
  exact dif_neg (Nat.pos_iff_ne_zero.1 hpos)

/-- Rounding only drops zeros at the end of a mantissa. -/
theorem roundWithAccuracy_exact {m : Nat} (hlow : 2 ^ 52 ≤ m) (hhigh : m < 2 ^ 53) {e : Int}
    {j : Nat} (he : -1074 ≤ e + j) (sign : UnpackedFloat.Sign) :
    UnpackedFloat.roundWithAccuracy Format.binary64 sign (m * 2 ^ j) e .exact
      = .finite sign m (e + j) (by omega) := by
  have hshift : ∀ (k : Nat) (f : Int), f + k = e + j →
      UnpackedFloat.shiftToTargetExponent Format.binary64 (m * 2 ^ k) f .exact
        = (⟨m, false, false⟩, e + j) := by
    intro k f hf
    have htarget : Format.binary64.targetExponent (totalExponent (m * 2 ^ k) f) = f + k := by
      unfold totalExponent Format.targetExponent Format.minExponent Format.mantissaBits
      rw [log2_mul_pow hlow hhigh]
      simp
      omega
    have hamount : (f + (k : Int) - f).toNat = k := by omega
    unfold UnpackedFloat.shiftToTargetExponent UnpackedFloat.shiftToExponent
    dsimp only
    rw [htarget, hamount, hf]
    exact congrArg (·, e + (j : Int)) (repeat_shiftRightOne m k)
  have hagain := hshift 0 (e + j) (by omega)
  rw [Nat.pow_zero, Nat.mul_one] at hagain
  exact roundWithAccuracy_eq sign (hshift j e rfl) hagain (show 0 < m by omega)

/-! ## Doubles with their leading bit at place 52 -/

/-- What stands in a double with its leading bit at place `52`. -/
theorem pack_aligned {m : Nat} (hpos : 0 < m) (hlow : 2 ^ 52 ≤ m) (hhigh : m < 2 ^ 53) {e : Int}
    (hmin : -1074 ≤ e) (hmax : e < 972) :
    UnpackedFloat.pack Format.binary64 (.finite .positive m e hpos)
      = UnpackedFloat.packComponents Format.binary64 .positive (BitVec.ofNat _ (e + 1075).toNat)
          (BitVec.ofNat _ m) := by
  have hlog : m.log2 = 52 := (Nat.log2_eq_iff (by omega)).2 ⟨hlow, hhigh⟩
  have hbiased : (e + (Format.binary64.exponentBias : Int)
      + (Format.binary64.mantissaBitsWithoutImplicit : Int)).toNat = (e + 1075).toNat := by
    show (e + 1023 + 52).toNat = _
    omega
  unfold UnpackedFloat.pack
  dsimp only
  rw [hbiased, hlog, if_neg (by show ¬ 2048 ≤ _; omega)]
  exact if_pos rfl

theorem unpack_pack_aligned {m : Nat} (hpos : 0 < m) (hlow : 2 ^ 52 ≤ m) (hhigh : m < 2 ^ 53)
    {e : Int} (hmin : -1074 ≤ e) (hmax : e < 972) :
    UnpackedFloat.unpack Format.binary64
        (UnpackedFloat.pack Format.binary64 (.finite .positive m e hpos))
      = .finite .positive m e hpos := by
  have hfield : (BitVec.ofNat 11 (e + 1075).toNat).toNat = (e + 1075).toNat := by
    rw [BitVec.toNat_ofNat]
    omega
  have hinfinite : BitVec.ofNat 11 (e + 1075).toNat ≠ -1#11 := by
    intro heq
    have hnat := congrArg BitVec.toNat heq
    rw [hfield] at hnat
    simp at hnat
    omega
  have hsmall : BitVec.ofNat 11 (e + 1075).toNat ≠ 0#11 := by
    intro heq
    have hnat := congrArg BitVec.toNat heq
    rw [hfield] at hnat
    simp at hnat
    omega
  have hmantissa : (1#1 ++ BitVec.ofNat 52 m).toNat = m := by
    rw [BitVec.toNat_append, ← Nat.shiftLeft_add_eq_or_of_lt (BitVec.ofNat 52 m).isLt,
      BitVec.toNat_ofNat, Nat.shiftLeft_eq]
    simp
    omega
  have hbias : ((Format.binary64.exponentBias : Nat) : Int) = 1023 := rfl
  rw [pack_aligned hpos hlow hhigh hmin hmax]
  unfold UnpackedFloat.unpack
  dsimp only
  rw [if_neg (by rwa [UnpackedFloat.unpackExponent_packComponents]),
    if_neg (by rwa [UnpackedFloat.unpackExponent_packComponents]), UnpackedFloat.finite.injEq,
    UnpackedFloat.unpackExponent_packComponents, UnpackedFloat.unpackMantissa_packComponents,
    unpackSign_packComponents, hfield, hbias]
  exact ⟨rfl, hmantissa, by omega⟩

/-- The number with a field for its exponent and a fraction. -/
theorem ofBits_normal {field fraction : Nat} (hpos : 0 < field) (hmax : field < 2047)
    (hfraction : fraction < Binary64.hiddenBit) :
    Binary64.ofBits (field * Binary64.hiddenBit + fraction)
      = .finite false (fraction + Binary64.hiddenBit) ((field : Int) - 1075) := by
  have hsign : (field * Binary64.hiddenBit + fraction).testBit 63 = false := by
    refine Nat.testBit_lt_two_pow ?_
    unfold Binary64.hiddenBit at *
    omega
  have hdiv : (field * Binary64.hiddenBit + fraction) / Binary64.hiddenBit % 2048 = field := by
    unfold Binary64.hiddenBit at *
    omega
  have hmod : (field * Binary64.hiddenBit + fraction) % Binary64.hiddenBit = fraction := by
    unfold Binary64.hiddenBit at *
    omega
  simp only [Binary64.ofBits, hsign, hdiv, hmod]
  rw [if_neg (by omega), if_neg (by omega)]

/-- The number that a double with its leading bit at place `52` stands for. -/
theorem ofFloat_aligned {m : Nat} (hpos : 0 < m) (hlow : 2 ^ 52 ≤ m) (hhigh : m < 2 ^ 53) {e : Int}
    (hmin : -1074 ≤ e) (hmax : e < 972) :
    Binary64.ofFloat (Float.ofModel (pack (.finite .positive m e hpos))) = .finite false m e := by
  have hbits : (Float.ofModel (pack (.finite .positive m e hpos))).toBits.toNat
      = (e + 1075).toNat * Binary64.hiddenBit + m % Binary64.hiddenBit := by
    show (UnpackedFloat.pack Format.binary64 (.finite .positive m e hpos)).toNat = _
    rw [pack_aligned hpos hlow hhigh hmin hmax]
    exact toNat_packComponents (by omega) m
  have hfraction : m % Binary64.hiddenBit + Binary64.hiddenBit = m := by
    unfold Binary64.hiddenBit
    omega
  have hexponent : ((e + 1075).toNat : Int) - 1075 = e := by omega
  unfold Binary64.ofFloat
  rw [hbits, ofBits_normal (by omega) (by omega) (Nat.mod_lt _ (by decide)), hfraction, hexponent]

/-! ## Doubles of whole numbers -/

/-- A number with its leading bit at place `52`. -/
theorem aligned_bounds {n : Nat} (hpos : 0 < n) (h : n < 2 ^ 53) :
    n.log2 ≤ 52 ∧ 2 ^ 52 ≤ n * 2 ^ (52 - n.log2) ∧ n * 2 ^ (52 - n.log2) < 2 ^ 53 := by
  have hn : n ≠ 0 := by omega
  have hlog : n.log2 < 53 := (Nat.log2_lt hn).2 h
  have hle : n.log2 ≤ 52 := by omega
  refine ⟨hle, ?_, ?_⟩
  · calc 2 ^ 52 = 2 ^ n.log2 * 2 ^ (52 - n.log2) := by rw [← Nat.pow_add]; congr 1; omega
      _ ≤ n * 2 ^ (52 - n.log2) := Nat.mul_le_mul_right _ (Nat.log2_self_le hn)
  · calc n * 2 ^ (52 - n.log2) < 2 ^ (n.log2 + 1) * 2 ^ (52 - n.log2) :=
          Nat.mul_lt_mul_of_pos_right Nat.lt_log2_self (Nat.two_pow_pos _)
      _ = 2 ^ 53 := by rw [← Nat.pow_add]; congr 1; omega

/-- The double of a whole number, unpacked. -/
theorem ofNat_unpacked {n : Nat} (hpos : 0 < n) (h : n < 2 ^ 53) :
    UnpackedFloat.ofNat Format.binary64 n
      = .finite .positive (n * 2 ^ (52 - n.log2)) (n.log2 - 52)
          (Nat.mul_pos hpos (Nat.two_pow_pos _)) := by
  obtain ⟨hlog, hlow, hhigh⟩ := aligned_bounds hpos h
  have hround := roundWithAccuracy_exact (j := 0) (e := n.log2 - 52) hlow hhigh (by omega) .positive
  rw [Nat.pow_zero, Nat.mul_one, Int.natCast_zero, Int.add_zero] at hround
  have htarget : Format.binary64.targetExponent (totalExponent n 0) = n.log2 - 52 := by
    unfold totalExponent Format.targetExponent Format.minExponent Format.mantissaBits
    simp
    omega
  have hcompare : compare (n : Int) 0 = .gt := by
    rw [Int.compare_eq_gt]
    omega
  unfold UnpackedFloat.ofNat UnpackedFloat.ofInt UnpackedFloat.normalize
  rw [hcompare]
  unfold UnpackedFloat.round UnpackedFloat.decreaseExponent
  dsimp only
  rw [Int.toNat_natCast, htarget]
  have hamount : (0 - ((n.log2 : Int) - 52)).toNat = 52 - n.log2 := by omega
  have hexponent : (0 : Int) - (52 - n.log2 : Nat) = n.log2 - 52 := by omega
  rw [hamount, hexponent, Nat.shiftLeft_eq, hround]

/-- A whole number below `2^53` is a double. -/
theorem unpack_toFloat {n : Nat} (hpos : 0 < n) (h : n < 2 ^ 53) :
    n.toUInt64.toFloat.toModel.unpack
      = .finite .positive (n * 2 ^ (52 - n.log2)) (n.log2 - 52)
          (Nat.mul_pos hpos (Nat.two_pow_pos _)) := by
  obtain ⟨hlog, hlow, hhigh⟩ := aligned_bounds hpos h
  have hwide : n.toUInt64.toNat = n := UInt64.toNat_ofNat_of_lt (by show n < 2 ^ 64; omega)
  show UnpackedFloat.unpack _ (UnpackedFloat.pack _ (UnpackedFloat.ofUInt64 _ _)) = _
  unfold UnpackedFloat.ofUInt64
  rw [hwide, ofNat_unpacked hpos h]
  exact unpack_pack_aligned _ hlow hhigh (by omega) (by omega)

theorem ofNat_eq {n : Nat} (hpos : 0 < n) (h : n < 2 ^ 53) :
    ofNat n = Float.ofModel (pack (.finite .positive (n * 2 ^ (52 - n.log2)) (n.log2 - 52)
      (Nat.mul_pos hpos (Nat.two_pow_pos _)))) := by
  obtain ⟨hlog, hlow, hhigh⟩ := aligned_bounds hpos h
  have hone : (Float.ofBits 0x3FF0000000000000).toModel.unpack
      = .finite .positive (2 ^ 52) (-52) (by decide) := by rfl
  have hproduct : Float.ofNat n = n.toUInt64.toFloat * Float.ofBits 0x3FF0000000000000 :=
    dif_pos (⟨h, by decide⟩ : n < 2 ^ 53 ∧ 0 ≤ 22)
  have hround := roundWithAccuracy_exact (j := 52) (e := (n.log2 : Int) - 52 + -52) hlow hhigh
    (by omega) .positive
  have hexponent : (n.log2 : Int) - 52 + -52 + (52 : Nat) = n.log2 - 52 := by omega
  rw [hexponent] at hround
  show Float.ofNat n = _
  rw [hproduct]
  show Float.ofModel (pack (UnpackedFloat.mul _ _ _)) = _
  rw [unpack_toFloat hpos h, hone]
  show Float.ofModel (pack (UnpackedFloat.roundWithAccuracy _ (.positive) _ _ _)) = _
  rw [hround]

theorem ofFloat_ofNat {n : Nat} (hpos : 0 < n) (h : n < 2 ^ 53) :
    Binary64.ofFloat (ofNat n) = .finite false (n * 2 ^ (52 - n.log2)) (n.log2 - 52) := by
  obtain ⟨hlog, hlow, hhigh⟩ := aligned_bounds hpos h
  rw [ofNat_eq hpos h]
  exact ofFloat_aligned _ hlow hhigh (by omega) (by omega)

/-! ## Integer parts -/

theorem wholePart_aligned {n : Nat} (h : n.log2 ≤ 52) :
    Binary64.wholePart (n * 2 ^ (52 - n.log2)) (n.log2 - 52) = n := by
  unfold Binary64.wholePart
  split
  next hwhole =>
    have hlog : n.log2 = 52 := by omega
    simp [hlog]
  next =>
    have hshift : (-((n.log2 : Int) - 52)).toNat = 52 - n.log2 := by omega
    rw [hshift]
    exact Nat.mul_div_cancel _ (Nat.two_pow_pos _)

theorem isWhole_aligned {n : Nat} (h : n.log2 ≤ 52) :
    Binary64.isWhole (n * 2 ^ (52 - n.log2)) (n.log2 - 52) = true := by
  have hshift : (-((n.log2 : Int) - 52)).toNat = 52 - n.log2 := by omega
  unfold Binary64.isWhole
  rw [hshift]
  exact Bool.or_eq_true_iff.2 (.inr (beq_iff_eq.2 (Nat.mul_mod_left _ _)))

/-- A whole number below `2^53` is the integer part of its double. -/
theorem toInt64_ofNat {n : Nat} (h : n < 2 ^ 53) : toInt64 (ofNat n) = n := by
  by_cases hpos : 0 < n
  · obtain ⟨hlog, -⟩ := aligned_bounds hpos h
    unfold toInt64 clamped
    rw [ofFloat_ofNat hpos h]
    dsimp only
    rw [wholePart_aligned hlog, if_neg Bool.false_ne_true]
    unfold minInt64 maxInt64
    omega
  · obtain rfl : n = 0 := by omega
    decide +kernel

theorem isIntegral_ofNat {n : Nat} (h : n < 2 ^ 53) : isIntegral (ofNat n) = true := by
  by_cases hpos : 0 < n
  · unfold isIntegral
    rw [ofFloat_ofNat hpos h]
    exact isWhole_aligned (aligned_bounds hpos h).1
  · obtain rfl : n = 0 := by omega
    decide +kernel

end Number

end ColumnQuery
