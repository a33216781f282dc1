/-
  Doubles as rational numbers.

  A finite double is a rational number (`value?`), and the doubles around it are a unit of its last
  place away, or half of one below a power of two (`IsRounded.gap`). The interval of a double ends
  halfway, so every number of the interval is nearer to it than to any other double, and as near to
  another one only at an end, which counts for even mantissas (`nearest_of_near`). Every number
  from half the least double up is in the interval of some mantissa (`exists_near`); beyond the
  greatest double this is the interval of no double, and such numbers are infinity.
-/
import ColumnQuery.Proofs.Number.Legible
import Mathlib.Data.Int.Log
import Mathlib.Data.Rat.Floor

namespace ColumnQuery

/-- The number that a finite double stands for. -/
def Binary64.value? : Binary64 → Option Rat
  | .finite negative m q => some (if negative then -((m : Rat) * 2 ^ q) else (m : Rat) * 2 ^ q)
  | _ => none

namespace Number

open Float.Model

/-- A double as a rational number, if it is finite. -/
def value? (x : Float) : Option Rat := (Binary64.ofFloat x).value?

variable {x y : Float} {m m' : Nat} {q q' : Int} {u v w : Rat}

theorem value?_eq_some (h : value? x = some v) : ∃ negative m q,
    Binary64.ofFloat x = .finite negative m q ∧
      v = if negative then -((m : Rat) * 2 ^ q) else (m : Rat) * 2 ^ q := by
  unfold value? at h
  cases hx : Binary64.ofFloat x with
  | nan =>
    rw [hx] at h
    cases h
  | infinite negative =>
    rw [hx] at h
    cases h
  | finite negative m q =>
    rw [hx] at h
    exact ⟨negative, m, q, rfl, (Option.some.inj h).symm⟩

theorem value?_of_finite {negative : Bool} (h : Binary64.ofFloat x = .finite negative m q) :
    value? x = some (if negative then -((m : Rat) * 2 ^ q) else (m : Rat) * 2 ^ q) := by
  unfold value?
  rw [h]
  rfl

/-! ## The doubles around a double -/

/-- The next numbers with a mantissa are a unit of the last place above, and a unit or half of one
    below. -/
theorem IsRounded.gap (h : IsRounded m q) (h' : IsRounded m' q') :
    ((m : Rat) * 2 ^ q < m' * 2 ^ q' → ((m : Rat) + 1) * 2 ^ q ≤ m' * 2 ^ q') ∧
      ((m' : Rat) * 2 ^ q' < m * 2 ^ q → (m' : Rat) * 2 ^ q' ≤ (m - below m q / 2) * 2 ^ q) := by
  have hbelow : (below m q : Rat) ≤ 2 := by exact_mod_cast below_le m q
  by_cases hle : q ≤ q'
  · -- at the exponent of the first one both are whole
    obtain ⟨j, rfl⟩ := Int.le.dest hle
    have hpow := two_zpow_pos q
    have hscale : (m' : Rat) * 2 ^ (q + j) = (m' * 2 ^ j : Nat) * 2 ^ q := by
      rw [zpow_add₀ two_ne_zero, zpow_natCast]
      push_cast
      ring
    rw [hscale]
    constructor
    · intro hlt
      have hlt := lt_of_mul_lt_mul_right hlt hpow.le
      refine mul_le_mul_of_nonneg_right ?_ hpow.le
      exact_mod_cast hlt
    · intro hlt
      have hlt : m' * 2 ^ j + 1 ≤ m := by exact_mod_cast lt_of_mul_lt_mul_right hlt hpow.le
      have hlt : ((m' * 2 ^ j : Nat) : Rat) + 1 ≤ m := by exact_mod_cast hlt
      exact mul_le_mul_of_nonneg_right (by linarith) hpow.le
  · -- at a smaller exponent there is nothing above the mantissas below `2^53`
    obtain ⟨j, rfl⟩ : ∃ j : Nat, q = q' + 1 + j := ⟨(q - q' - 1).toNat, by omega⟩
    have hpow := two_zpow_pos q'
    have hleading := h.leading.resolve_right (by have := h'.least; omega)
    have hlt' := h'.lt
    have hscale : ∀ a : Rat, a * 2 ^ (q' + 1 + (j : Int)) = a * 2 * 2 ^ j * 2 ^ q' := by
      intro a
      rw [zpow_add₀ two_ne_zero, zpow_add₀ two_ne_zero, zpow_natCast, zpow_one]
      ring
    have hgrow : (1 : Rat) ≤ 2 ^ j := one_le_pow₀ (by norm_num)
    have hsmall : (m' : Rat) ≤ 2 ^ 53 - 1 := by
      rw [le_sub_iff_add_le]
      exact_mod_cast hlt'
    have hlow : (2 ^ 53 - 1 : Rat) ≤ (m - below m (q' + 1 + j) / 2) * 2 := by
      have hnat : 2 ^ 53 + below m (q' + 1 + j) ≤ 2 * m + 1 := by
        unfold below
        split
        next heq => omega
        next hne =>
          have := h'.least
          omega
      have hrat : (2 ^ 53 : Rat) + below m (q' + 1 + j) ≤ 2 * m + 1 := by exact_mod_cast hnat
      linarith
    have hstep : (m' : Rat) ≤ (m - below m (q' + 1 + j) / 2) * 2 * 2 ^ j :=
      hsmall.trans (hlow.trans (le_mul_of_one_le_right (le_trans (by norm_num) hlow) hgrow))
    constructor
    · intro hlt
      rw [hscale] at hlt
      have hlt := (lt_of_mul_lt_mul_right hlt hpow.le).trans_le hstep
      have hlt := lt_of_mul_lt_mul_right hlt (by positivity)
      have hpos : (0 : Rat) < below m (q' + 1 + j) := by exact_mod_cast below_pos m (q' + 1 + j)
      linarith
    · intro _
      rw [hscale]
      exact mul_le_mul_of_nonneg_right hstep hpow.le

/-- The doubles below a double, the negative ones among them. -/
theorem IsRounded.le_of_lt (h : IsRounded m q) (hy : value? y = some u) (hu : u < m * 2 ^ q) :
    u ≤ (m - below m q / 2) * 2 ^ q := by
  have hpow := two_zpow_pos q
  have hpos : (1 : Rat) ≤ m := by exact_mod_cast h.pos
  have hbelow : (below m q : Rat) ≤ 2 := by exact_mod_cast below_le m q
  have hnonneg : (0 : Rat) ≤ (m - below m q / 2) * 2 ^ q :=
    mul_nonneg (by linarith) hpow.le
  obtain ⟨negative, m', q', hform, rfl⟩ := value?_eq_some hy
  have hvalue : (0 : Rat) ≤ m' * 2 ^ q' := by positivity
  cases negative with
  | true =>
    rw [if_pos rfl] at hu ⊢
    linarith
  | false =>
    rw [if_neg Bool.false_ne_true] at hu ⊢
    rcases Nat.eq_zero_or_pos m' with rfl | hm'
    · rwa [Nat.cast_zero, zero_mul]
    · exact (h.gap (isDouble_of_ofFloat hform hm').toIsRounded).2 hu

/-- The doubles above a double. -/
theorem IsRounded.ge_of_gt (h : IsRounded m q) (hy : value? y = some u) (hu : m * 2 ^ q < u) :
    (m + 1) * 2 ^ q ≤ u := by
  have hpow := two_zpow_pos q
  have hnonneg : (0 : Rat) ≤ m * 2 ^ q := by positivity
  obtain ⟨negative, m', q', hform, rfl⟩ := value?_eq_some hy
  have hvalue : (0 : Rat) ≤ m' * 2 ^ q' := by positivity
  cases negative with
  | true =>
    rw [if_pos rfl] at hu
    linarith
  | false =>
    rw [if_neg Bool.false_ne_true] at hu ⊢
    rcases Nat.eq_zero_or_pos m' with rfl | hm'
    · rw [Nat.cast_zero, zero_mul] at hu
      linarith
    · exact (h.gap (isDouble_of_ofFloat hform hm').toIsRounded).1 hu

/-! ## Equal doubles -/

/-- A positive number has one mantissa and one exponent. -/
theorem IsRounded.unique (h : IsRounded m q) (h' : IsRounded m' q')
    (heq : (m : Rat) * 2 ^ q = m' * 2 ^ q') : m = m' ∧ q = q' := by
  have hexponent : ∀ {m m' : Nat} {q q' : Int}, IsRounded m q → IsRounded m' q' →
      (m : Rat) * 2 ^ q = m' * 2 ^ q' → q' ≤ q := by
    intro m m' q q' h h' heq
    by_contra hlt
    obtain ⟨j, rfl⟩ : ∃ j : Nat, q' = q + 1 + j := ⟨(q' - q - 1).toNat, by omega⟩
    have hleading := h'.leading.resolve_right (by have := h.least; omega)
    rw [zpow_add₀ two_ne_zero, zpow_add₀ two_ne_zero, zpow_natCast, zpow_one] at heq
    have hcancel : (m : Rat) = (m' * 2 * 2 ^ j : Nat) := by
      refine mul_right_cancel₀ (two_zpow_pos q).ne' (heq.trans ?_)
      push_cast
      ring
    have hgrow := Nat.le_mul_of_pos_right (m' * 2) (Nat.two_pow_pos j)
    have := h.lt
    have := Nat.cast_injective hcancel
    omega
  obtain rfl : q = q' := Int.le_antisymm (hexponent h' h heq.symm) (hexponent h h' heq)
  exact ⟨Nat.cast_injective (mul_right_cancel₀ (two_zpow_pos q).ne' heq), rfl⟩

theorem compare_exponents_iff {e f : Int} {k l : Nat} :
    ((compare e f).then (compare k l) == .eq) = true ↔ e = f ∧ k = l := by
  rw [beq_iff_eq, Ordering.then_eq_eq, Int.compare_eq_eq, Nat.compare_eq_eq]

/-- Numbers other than zero are compared by their signs, exponents and mantissas. -/
theorem beq_finite_iff (h : IsRounded m q) (h' : IsRounded m' q') (s s' : UnpackedFloat.Sign) :
    (UnpackedFloat.finite s m q h.pos).beq (.finite s' m' q' h'.pos) = true ↔
      (if isMinus s then -((m : Rat) * 2 ^ q) else m * 2 ^ q)
        = if isMinus s' then -((m' : Rat) * 2 ^ q') else m' * 2 ^ q' := by
  have hvalue : (0 : Rat) < m * 2 ^ q := mul_pos (by exact_mod_cast h.pos) (two_zpow_pos q)
  have hvalue' : (0 : Rat) < m' * 2 ^ q' := mul_pos (by exact_mod_cast h'.pos) (two_zpow_pos q')
  have hsame : q = q' ∧ m = m' ↔ (m : Rat) * 2 ^ q = m' * 2 ^ q' := by
    constructor
    · rintro ⟨rfl, rfl⟩
      rfl
    · exact fun heq => (h.unique h' heq).symm
  cases s with
  | negative =>
    cases s' with
    | negative =>
      show (some ((compare q q').then (compare m m')).swap == some .eq) = true ↔
        -((m : Rat) * 2 ^ q) = -((m' : Rat) * 2 ^ q')
      rw [neg_inj, ← hsame, ← compare_exponents_iff]
      cases (compare q q').then (compare m m') <;> decide
    | positive =>
      refine iff_of_false Bool.false_ne_true fun heq => ?_
      have heq : -((m : Rat) * 2 ^ q) = m' * 2 ^ q' := heq
      linarith
  | positive =>
    cases s' with
    | negative =>
      refine iff_of_false Bool.false_ne_true fun heq => ?_
      have heq : (m : Rat) * 2 ^ q = -(m' * 2 ^ q') := heq
      linarith
    | positive =>
      show (some ((compare q q').then (compare m m')) == some .eq) = true ↔
        (m : Rat) * 2 ^ q = m' * 2 ^ q'
      rw [← hsame, ← compare_exponents_iff]
      cases (compare q q').then (compare m m') <;> decide

/-- A number other than zero is not zero with a sign either. -/
theorem signed_ne_zero (hm : 0 < m) (negative : Bool) :
    (if negative then -((m : Rat) * 2 ^ q) else m * 2 ^ q) ≠ 0 := by
  have hvalue : (m : Rat) * 2 ^ q ≠ 0 := (mul_pos (by exact_mod_cast hm) (two_zpow_pos q)).ne'
  cases negative with
  | false => exact hvalue
  | true => exact neg_ne_zero.2 hvalue

/-- Finite doubles are equal if they stand for one number. -/
theorem beq_iff (hx : value? x = some v) (hy : value? y = some w) : (x == y) = true ↔ v = w := by
  obtain ⟨negative, m, q, hfx, rfl⟩ := value?_eq_some hx
  obtain ⟨negative', m', q', hfy, rfl⟩ := value?_eq_some hy
  have hm := isDouble_of_ofFloat hfx
  have hm' := isDouble_of_ofFloat hfy
  have hzero : ∀ (negative : Bool) (q : Int),
      (if negative then -(((0 : Nat) : Rat) * 2 ^ q) else (0 : Nat) * 2 ^ q) = 0 := by simp
  rw [ofFloat_eq_ofUnpacked] at hfx hfy
  show x.toModel.unpack.beq y.toModel.unpack = true ↔ _
  generalize x.toModel.unpack = a at hfx
  generalize y.toModel.unpack = b at hfy
  cases a with
  | notANumber => cases hfx
  | infinity => cases hfx
  | zero s =>
    cases hfx
    rw [hzero]
    cases b with
    | notANumber => cases hfy
    | infinity => cases hfy
    | zero s' =>
      cases hfy
      exact iff_of_true rfl (hzero _ _).symm
    | finite s' m' q' h' =>
      cases hfy
      refine iff_of_false ?_ (signed_ne_zero h' _).symm
      cases s' <;> exact Bool.false_ne_true
  | finite s m q h =>
    cases hfx
    cases b with
    | notANumber => cases hfy
    | infinity => cases hfy
    | zero s' =>
      cases hfy
      rw [hzero]
      refine iff_of_false ?_ (signed_ne_zero h _)
      cases s <;> exact Bool.false_ne_true
    | finite s' m' q' h' =>
      cases hfy
      exact beq_finite_iff (hm h).toIsRounded (hm' h').toIsRounded s s'

/-! ## The nearest double -/

/-- The interval of a double in units of its last place. -/
theorem near_iff : Near m q v ↔ ((m : Rat) - below m q / 4) * 2 ^ q ≤ v ∧
    v ≤ (m + 1 / 2) * 2 ^ q ∧ (m % 2 = 1 →
      ((m : Rat) - below m q / 4) * 2 ^ q < v ∧ v < (m + 1 / 2) * 2 ^ q) := by
  have hscale : ∀ a : Rat, a * 2 ^ (q - 2) = a / 4 * 2 ^ q := by
    intro a
    rw [zpow_sub₀ two_ne_zero]
    norm_num
    ring
  have hlow : (4 * m - below m q : Rat) * 2 ^ (q - 2) = (m - below m q / 4) * 2 ^ q := by
    rw [hscale]
    ring
  have hhigh : (4 * m + 2 : Rat) * 2 ^ (q - 2) = (m + 1 / 2) * 2 ^ q := by
    rw [hscale]
    ring
  rw [← hlow, ← hhigh]
  exact ⟨fun h => ⟨h.low, h.high, h.odd⟩, fun h => ⟨h.1, h.2.1, h.2.2⟩⟩

/-- A number of the interval of a double is no nearer to any other double, and as near to another
    one only if the mantissa is even. -/
theorem nearest_of_near (hm : IsRounded m q) (h : Near m q v) (hy : value? y = some u) :
    |v - m * 2 ^ q| ≤ |v - u| ∧ (|v - m * 2 ^ q| = |v - u| → u = m * 2 ^ q ∨ m % 2 = 0) := by
  have hpow := two_zpow_pos q
  have hbelow : (0 : Rat) < below m q * 2 ^ q :=
    mul_pos (by exact_mod_cast below_pos m q) hpow
  obtain ⟨hlow, hhigh, hodd⟩ := near_iff.1 h
  have hparity : m % 2 = 0 ∨ m % 2 = 1 := Nat.mod_two_eq_zero_or_one m
  rcases lt_trichotomy u (m * 2 ^ q) with hlt | rfl | hgt
  · have hle := hm.le_of_lt hy hlt
    have hdistance : |v - u| = v - u := abs_of_nonneg (by linarith)
    rw [hdistance]
    refine ⟨abs_le.2 ⟨by linarith, by linarith⟩, fun htie => .inr (hparity.resolve_right ?_)⟩
    intro hone
    have hstrict := (hodd hone).1
    rcases abs_choice (v - m * 2 ^ q) with habs | habs
    · linarith
    · linarith
  · exact ⟨le_refl _, fun _ => .inl rfl⟩
  · have hge := hm.ge_of_gt hy hgt
    have hdistance : |v - u| = u - v := by
      rw [abs_sub_comm]
      exact abs_of_nonneg (by linarith)
    rw [hdistance]
    refine ⟨abs_le.2 ⟨by linarith, by linarith⟩, fun htie => .inr (hparity.resolve_right ?_)⟩
    intro hone
    have hstrict := (hodd hone).2
    rcases abs_choice (v - m * 2 ^ q) with habs | habs
    · linarith
    · linarith

/-! ## Mantissas for all numbers -/

/-- The whole number nearest to a number, the even one of two. -/
theorem exists_even_nearest (hv : 0 ≤ v) : ∃ m : Nat, (m : Rat) - 1 / 2 ≤ v ∧ v ≤ m + 1 / 2 ∧
    (m % 2 = 1 → (m : Rat) - 1 / 2 < v ∧ v < m + 1 / 2) := by
  have hfloor := Nat.floor_le hv
  have hlt := Nat.lt_floor_add_one v
  generalize ⌊v⌋₊ = f at hfloor hlt
  rcases lt_trichotomy v (f + 1 / 2) with hbelow | hhalf | habove
  · exact ⟨f, by linarith, by linarith, fun _ => ⟨by linarith, hbelow⟩⟩
  · rcases Nat.mod_two_eq_zero_or_one f with heven | hodd
    · exact ⟨f, by linarith, by linarith, fun h => by omega⟩
    · exact ⟨f + 1, by push_cast; linarith, by push_cast; linarith, fun h => by omega⟩
  · refine ⟨f + 1, ?_, ?_, fun _ => ⟨?_, ?_⟩⟩ <;> push_cast <;> linarith

/-- What rounding to the even one of two nearest mantissas gives. -/
theorem exists_near_of_units (hle : -1074 ≤ q) (hv : w * 2 ^ q = v) (hlt : w < 2 ^ 53)
    (hlarge : 2 ^ 52 ≤ w ∨ q = -1074 ∧ 1 / 2 < w) :
    ∃ m q, IsRounded m q ∧ Near m q v := by
  have hpow := two_zpow_pos q
  have hpos : 0 ≤ w := by
    rcases hlarge with h | ⟨-, h⟩ <;> linarith
  obtain ⟨m, hlow, hhigh, hodd⟩ := exists_even_nearest hpos
  have hm : 0 < m := by
    rcases Nat.eq_zero_or_pos m with rfl | hm
    · exfalso
      rw [Nat.cast_zero] at hhigh
      rcases hlarge with h | ⟨-, h⟩ <;> linarith
    · exact hm
  have hmost : m ≤ 2 ^ 53 := by
    have : (m : Rat) < (2 ^ 53 + 1 : Nat) := by push_cast; linarith
    have := Nat.cast_lt.1 this
    omega
  have hleading : 2 ^ 52 ≤ m ∨ q = -1074 := by
    rcases hlarge with h | ⟨h, -⟩
    · have : ((2 ^ 52 : Nat) : Rat) < (m + 1 : Nat) := by push_cast; linarith
      have := Nat.cast_lt.1 this
      exact .inl (by omega)
    · exact .inr h
  rcases Nat.lt_or_eq_of_le hmost with hinside | rfl
  · refine ⟨m, q, ⟨hm, hinside, hle, hleading⟩, near_iff.2 ?_⟩
    rw [← hv]
    by_cases hpower : m = 2 ^ 52 ∧ -1074 < q
    · -- nothing below a power of two is rounded up to it at its own exponent
      have hbelow : below m q = 1 := if_pos hpower
      have hin : (2 ^ 52 : Rat) ≤ w := hlarge.resolve_right (by omega)
      have hcast : (m : Rat) = 2 ^ 52 := by exact_mod_cast hpower.1
      rw [hbelow, hcast]
      refine ⟨mul_le_mul_of_nonneg_right (by push_cast; linarith) hpow.le,
        mul_le_mul_of_nonneg_right (by linarith) hpow.le, fun h => ?_⟩
      omega
    · have hbelow : below m q = 2 := if_neg hpower
      have hhalf : (m : Rat) - (2 : Nat) / 4 = m - 1 / 2 := by norm_num
      rw [hbelow, hhalf]
      exact ⟨mul_le_mul_of_nonneg_right hlow hpow.le, mul_le_mul_of_nonneg_right hhigh hpow.le,
        fun h => ⟨mul_lt_mul_of_pos_right (hodd h).1 hpow, mul_lt_mul_of_pos_right (hodd h).2 hpow⟩⟩
  · -- up to the next power of two
    refine ⟨2 ^ 52, q + 1, ⟨by decide, by decide, by omega, .inl (Nat.le_refl _)⟩,
      near_iff.2 ?_⟩
    have hbelow : below (2 ^ 52) (q + 1) = 1 := if_pos ⟨rfl, by omega⟩
    have hscale : ∀ a : Rat, a * 2 ^ (q + 1) = a * 2 * 2 ^ q := by
      intro a
      rw [zpow_add₀ two_ne_zero, zpow_one]
      ring
    rw [hbelow, ← hv, hscale, hscale]
    push_cast at hlow
    refine ⟨mul_le_mul_of_nonneg_right (by push_cast; linarith) hpow.le,
      mul_le_mul_of_nonneg_right (by push_cast; linarith) hpow.le, fun h => ?_⟩
    omega

/-- A number above half the least double is in the interval of a mantissa. -/
theorem exists_near (hv : 2 ^ (-1075 : Int) < v) : ∃ m q, IsRounded m q ∧ Near m q v := by
  have hpos : 0 < v := (two_zpow_pos _).trans hv
  have hlog := Int.zpow_log_le_self (b := 2) (by decide) hpos
  have hnext := Int.lt_zpow_succ_log_self (b := 2) (by decide) v
  generalize Int.log 2 v = k at hlog hnext
  push_cast at hlog hnext
  have hunits : ∀ q : Int, v / 2 ^ q * 2 ^ q = v :=
    fun q => div_mul_cancel₀ v (two_zpow_pos q).ne'
  have hfew : ∀ {q : Int}, k - 52 ≤ q → v / 2 ^ q < 2 ^ 53 := by
    intro q hq
    rw [div_lt_iff₀ (two_zpow_pos q), ← zpow_natCast, ← zpow_add₀ two_ne_zero]
    exact hnext.trans_le (two_zpow_le.2 (by push_cast; omega))
  by_cases hnormal : -1074 ≤ k - 52
  · refine exists_near_of_units hnormal (hunits _) (hfew (Int.le_refl _)) (.inl ?_)
    rw [le_div_iff₀ (two_zpow_pos _), ← zpow_natCast, ← zpow_add₀ two_ne_zero]
    exact (two_zpow_le.2 (by push_cast; omega)).trans hlog
  · refine exists_near_of_units (Int.le_refl _) (hunits _) (hfew (by omega)) (.inr ⟨rfl, ?_⟩)
    rw [lt_div_iff₀ (two_zpow_pos _)]
    refine lt_of_eq_of_lt ?_ hv
    rw [show (-1075 : Int) = -1 + -1074 from rfl, zpow_add₀ two_ne_zero]
    norm_num

/-! ## Rounding -/

/-- The number that a packed double stands for. -/
theorem ofFloat_pack (h : IsDouble m q) :
    Binary64.ofFloat (Float.ofModel (pack (.finite .positive m q h.pos)))
      = .finite false m q := by
  have hlt := h.lt
  have hleast := h.least
  have hmost := h.most
  by_cases hnormal : 2 ^ 52 ≤ m
  · exact ofFloat_aligned h.pos hnormal hlt hleast (by omega)
  · -- a small mantissa stands in the fraction, and the field of the exponent is zero
    obtain rfl : q = -1074 := h.leading.resolve_left hnormal
    have hlog : m.log2 < 52 := (Nat.log2_lt h.pos.ne').2 (Nat.not_le.1 hnormal)
    have hpack : UnpackedFloat.pack Format.binary64 (.finite .positive m (-1074) h.pos)
        = UnpackedFloat.packComponents Format.binary64 .positive (BitVec.ofNat _ 0)
            (BitVec.ofNat _ m) := by
      unfold UnpackedFloat.pack
      dsimp only
      rw [if_neg (by decide), if_neg (by show m.log2 + 1 ≠ 53; omega)]
    have hbits : (Float.ofModel (pack (.finite .positive m (-1074) h.pos))).toBits.toNat
        = m := by
      show (UnpackedFloat.pack Format.binary64 (.finite .positive m (-1074) h.pos)).toNat = _
      rw [hpack, toNat_packComponents (by decide), Nat.zero_mul, Nat.zero_add]
      exact Nat.mod_eq_of_lt (Nat.not_le.1 hnormal)
    have hsign : m.testBit 63 = false := Nat.testBit_lt_two_pow (by omega)
    have hfield : m / Binary64.hiddenBit % 2048 = 0 := by
      unfold Binary64.hiddenBit
      omega
    have hfraction : m % Binary64.hiddenBit = m := by
      unfold Binary64.hiddenBit
      omega
    unfold Binary64.ofFloat
    rw [hbits]
    simp only [Binary64.ofBits, hsign, hfield, hfraction]
    rfl

/-- From half a unit of the last place above the greatest double on, numbers are infinity. -/
def infinityBound : Rat := (2 ^ 53 - 1 / 2) * 2 ^ (971 : Int)

/-- The double that a number from zero up is rounded to: none is nearer, and of two that are as near
    it is the one with an even mantissa. -/
inductive RoundsTo (v : Rat) (x : Float) : Prop where
  | infinite (hv : infinityBound ≤ v) (hx : x = infinity)
  | finite (m : Nat) (q : Int) (hv : v < infinityBound)
      (hx : Binary64.ofFloat x = .finite false m q)
      (nearest : ∀ y u, value? y = some u → |v - m * 2 ^ q| ≤ |v - u|)
      (even : ∀ y u, value? y = some u → |v - m * 2 ^ q| = |v - u| → u = m * 2 ^ q ∨ m % 2 = 0)

theorem infinityBound_eq : infinityBound = (2 ^ 52 - 1 / 4) * 2 ^ (972 : Int) := by
  unfold infinityBound
  rw [show (972 : Int) = 1 + 971 from rfl, zpow_add₀ two_ne_zero, zpow_one]
  ring

/-- The intervals of doubles end below the bound. -/
theorem Near.lt_bound_iff (hm : IsRounded m q) (h : Near m q v) : v < infinityBound ↔ q ≤ 971 := by
  have hpow := two_zpow_pos q
  obtain ⟨hlow, hhigh, hodd⟩ := near_iff.1 h
  constructor
  · intro hlt
    by_contra hlarge
    have hleading := hm.leading.resolve_right (by omega)
    have hle : (2 ^ 52 - 1 / 4 : Rat) ≤ m - below m q / 4 := by
      have hnat : 2 ^ 54 + below m q ≤ 4 * m + 1 := by
        unfold below
        split <;> omega
      have hrat : (2 ^ 54 : Rat) + below m q ≤ 4 * m + 1 := by exact_mod_cast hnat
      linarith
    refine absurd hlt (not_lt.2 ?_)
    calc infinityBound = (2 ^ 52 - 1 / 4) * 2 ^ (972 : Int) := infinityBound_eq
      _ ≤ (2 ^ 52 - 1 / 4) * 2 ^ q :=
        mul_le_mul_of_nonneg_left (two_zpow_le.2 (by omega)) (by norm_num)
      _ ≤ (m - below m q / 4) * 2 ^ q := mul_le_mul_of_nonneg_right hle hpow.le
      _ ≤ v := hlow
  · intro hq
    have hmost : (2 ^ 53 - 1 / 2 : Rat) * 2 ^ q ≤ infinityBound := by
      exact mul_le_mul_of_nonneg_left (two_zpow_le.2 hq) (by norm_num)
    have hlt := hm.lt
    rcases Nat.mod_two_eq_zero_or_one m with heven | hone
    · have hle : (m : Rat) + 2 ≤ 2 ^ 53 := by exact_mod_cast (by omega : m + 2 ≤ 2 ^ 53)
      have hstrict : ((m : Rat) + 1 / 2) * 2 ^ q < (2 ^ 53 - 1 / 2) * 2 ^ q :=
        mul_lt_mul_of_pos_right (by linarith) hpow
      exact hhigh.trans_lt (hstrict.trans_le hmost)
    · have hle : (m : Rat) + 1 ≤ 2 ^ 53 := by exact_mod_cast hlt
      exact (hodd hone).2.trans_le
        ((mul_le_mul_of_nonneg_right (by linarith) hpow.le).trans hmost)

/-- A number of an interval is rounded to the double of that interval. -/
theorem roundsTo_of_near (hm : IsRounded m q) (h : Near m q v) :
    RoundsTo v (Float.ofModel (pack (.finite .positive m q hm.pos))) := by
  by_cases hq : q ≤ 971
  · exact .finite m q ((h.lt_bound_iff hm).2 hq) (ofFloat_pack ⟨hm, hq⟩)
      (fun _ _ hy => (nearest_of_near hm h hy).1) fun _ _ hy => (nearest_of_near hm h hy).2
  · exact .infinite (not_lt.1 (mt (h.lt_bound_iff hm).1 hq)) (pack_large hm.pos (by omega))

/-- No double lies between zero and the least one. -/
theorem least_le (hy : value? y = some u) (hu : 0 < u) : 2 ^ (-1074 : Int) ≤ u := by
  obtain ⟨negative, m, q, hform, rfl⟩ := value?_eq_some hy
  have hvalue : (0 : Rat) ≤ m * 2 ^ q := by positivity
  cases negative with
  | true =>
    rw [if_pos rfl] at hu
    linarith
  | false =>
    rw [if_neg Bool.false_ne_true] at hu ⊢
    have hm : 0 < m := by
      rcases Nat.eq_zero_or_pos m with rfl | hm
      · rw [Nat.cast_zero, zero_mul] at hu
        exact absurd hu (lt_irrefl 0)
      · exact hm
    have hone : (1 : Rat) ≤ m := by exact_mod_cast hm
    calc (2 : Rat) ^ (-1074 : Int) ≤ 2 ^ q := two_zpow_le.2 (isDouble_of_ofFloat hform hm).least
      _ ≤ m * 2 ^ q := le_mul_of_one_le_left (two_zpow_pos q).le hone

/-- Up to half the least double numbers are zero. -/
theorem roundsTo_zero (hv : 0 ≤ v) (hsmall : v ≤ 2 ^ (-1075 : Int)) : RoundsTo v 0.0 := by
  have hhalf : (2 : Rat) ^ (-1074 : Int) = 2 * 2 ^ (-1075 : Int) := by
    rw [show (-1074 : Int) = 1 + -1075 from rfl, zpow_add₀ two_ne_zero, zpow_one]
  have hbound : v < infinityBound :=
    calc v ≤ 2 ^ (-1075 : Int) := hsmall
      _ < 2 ^ (971 : Int) := two_zpow_lt.2 (by decide)
      _ ≤ infinityBound := le_mul_of_one_le_left (two_zpow_pos _).le (by norm_num)
  refine .finite 0 (-1074) hbound (by decide +kernel) (fun y u hy => ?_) fun _ _ _ _ => .inr rfl
  rw [Nat.cast_zero, zero_mul, sub_zero, abs_of_nonneg hv]
  by_cases hu : 0 < u
  · have hle := least_le hy hu
    rw [abs_sub_comm]
    exact le_trans (by linarith) (le_abs_self _)
  · exact le_trans (by linarith) (le_abs_self _)

/-- A numeral is read as the double that its number is rounded to. -/
theorem magnitude_roundsTo (c : Nat) (k : Int) : RoundsTo (c * 10 ^ k) (Decimal.magnitude c k) := by
  have hnonneg : (0 : Rat) ≤ c * 10 ^ k :=
    mul_nonneg (Nat.cast_nonneg c) (zpow_pos (by norm_num) k).le
  by_cases hsmall : (c * 10 ^ k : Rat) ≤ 2 ^ (-1075 : Int)
  · rw [magnitude_zero hsmall]
    exact roundsTo_zero hnonneg hsmall
  · obtain ⟨m, q, hm, hnear⟩ := exists_near (not_le.1 hsmall)
    rw [magnitude_near hm hnear]
    exact roundsTo_of_near hm hnear

/-! ## The double of a number -/

/-- Numbers without a minus are equal doubles if they are equal. -/
theorem eq_of_values (hx : Binary64.ofFloat x = .finite false m q)
    (hy : Binary64.ofFloat y = .finite false m' q') (heq : (m : Rat) * 2 ^ q = m' * 2 ^ q') :
    x = y := by
  have hzero : m = 0 ↔ m' = 0 := by
    have hpow := (two_zpow_pos q).ne'
    have hpow' := (two_zpow_pos q').ne'
    rw [← Nat.cast_eq_zero (R := Rat), ← mul_eq_zero_iff_right hpow, heq,
      mul_eq_zero_iff_right hpow', Nat.cast_eq_zero]
  rcases eq_of_ofFloat hx with ⟨hm, rfl⟩ | ⟨hm, rfl⟩
  · rcases eq_of_ofFloat hy with ⟨-, rfl⟩ | ⟨hm', -⟩
    · rfl
    · exact absurd (hzero.1 hm) hm'.ne'
  · rcases eq_of_ofFloat hy with ⟨hm', -⟩ | ⟨hm', rfl⟩
    · exact absurd (hzero.2 hm') hm.ne'
    · obtain ⟨rfl, rfl⟩ := (isDouble_of_ofFloat hx hm).toIsRounded.unique
        (isDouble_of_ofFloat hy hm').toIsRounded heq
      rfl

/-- After an even mantissa comes an odd one with the same exponent. -/
theorem isDouble_succ (hx : Binary64.ofFloat x = .finite false m q) (heven : m % 2 = 0) :
    IsDouble (m + 1) q := by
  rcases eq_of_ofFloat hx with ⟨rfl, rfl⟩ | ⟨hm, -⟩
  · rw [show Binary64.ofFloat 0.0 = .finite false 0 (-1074) by decide +kernel] at hx
    cases hx
    exact ⟨⟨by decide, by decide, by decide, .inr rfl⟩, by decide⟩
  · have h := isDouble_of_ofFloat hx hm
    have hlt := h.lt
    refine ⟨⟨by omega, by omega, h.least, ?_⟩, h.most⟩
    rcases h.leading with hle | hq
    · exact .inl (by omega)
    · exact .inr hq

/-- No double lies strictly between one with an even mantissa and the next one. -/
theorem succ_le (hx : Binary64.ofFloat x = .finite false m q) (hy : value? y = some u)
    (hlt : m * 2 ^ q < u) : (m + 1) * 2 ^ q ≤ u := by
  rcases eq_of_ofFloat hx with ⟨rfl, rfl⟩ | ⟨hm, -⟩
  · rw [show Binary64.ofFloat 0.0 = .finite false 0 (-1074) by decide +kernel] at hx
    cases hx
    rw [Nat.cast_zero, zero_mul] at hlt
    rw [Nat.cast_zero, zero_add, one_mul]
    exact least_le hy hlt
  · exact (isDouble_of_ofFloat hx hm).ge_of_gt hy hlt

/-- Two doubles that are as near to a number, with none nearer, do not both have even mantissas. -/
theorem not_even_of_lt (hx : Binary64.ofFloat x = .finite false m q) (heven : m % 2 = 0)
    (hy : Binary64.ofFloat y = .finite false m' q') (heven' : m' % 2 = 0)
    (nearest : ∀ z u, value? z = some u → |v - m * 2 ^ q| ≤ |v - u|)
    (hsame : |v - m * 2 ^ q| = |v - m' * 2 ^ q'|) : ¬ (m : Rat) * 2 ^ q < m' * 2 ^ q' := by
  intro hlt
  have hnext := isDouble_succ hx heven
  have hvalue := value?_of_finite (ofFloat_pack hnext)
  rw [if_neg Bool.false_ne_true] at hvalue
  have hyvalue := value?_of_finite hy
  rw [if_neg Bool.false_ne_true] at hyvalue
  have hstep : (m : Rat) * 2 ^ q < (m + 1 : Nat) * 2 ^ q :=
    mul_lt_mul_of_pos_right (by push_cast; linarith) (two_zpow_pos q)
  have hle : ((m + 1 : Nat) : Rat) * 2 ^ q ≤ m' * 2 ^ q' := by
    push_cast
    exact succ_le hx hyvalue hlt
  have hmiddle : v - m * 2 ^ q = m' * 2 ^ q' - v := by
    rcases abs_eq_abs.1 hsame with h | h
    · linarith
    · rw [h, neg_sub]
  rcases hle.eq_or_lt with heq | hbetween
  · -- the next mantissa is odd
    have hm' : 0 < m' := by
      rcases Nat.eq_zero_or_pos m' with rfl | hm'
      · rw [Nat.cast_zero, zero_mul] at hlt
        exact absurd hlt (not_lt.2 (by positivity))
      · exact hm'
    obtain ⟨hodd, -⟩ := hnext.toIsRounded.unique (isDouble_of_ofFloat hy hm').toIsRounded heq
    omega
  · -- the double between them is nearer
    have hnear := nearest _ _ hvalue
    rw [abs_of_pos (by linarith)] at hnear
    exact absurd (abs_lt.2 ⟨by linarith, by linarith⟩) (not_lt.2 hnear)

/-- A number is rounded to one double. -/
theorem RoundsTo.unique (hx : RoundsTo v x) (hy : RoundsTo v y) : x = y := by
  cases hx with
  | infinite hv hx =>
    cases hy with
    | infinite _ hy => rw [hx, hy]
    | finite _ _ hlt => exact absurd hlt (not_lt.2 hv)
  | finite m q hv hx nearest even =>
    cases hy with
    | infinite hle => exact absurd hv (not_lt.2 hle)
    | finite m' q' _ hy nearest' even' =>
      have hxvalue := value?_of_finite hx
      have hyvalue := value?_of_finite hy
      rw [if_neg Bool.false_ne_true] at hxvalue hyvalue
      have hsame := le_antisymm (nearest _ _ hyvalue) (nearest' _ _ hxvalue)
      refine eq_of_values hx hy ?_
      by_contra hne
      have heven := (even _ _ hyvalue hsame).resolve_left (Ne.symm hne)
      have heven' := (even' _ _ hxvalue hsame.symm).resolve_left hne
      rcases lt_or_gt_of_ne hne with hlt | hlt
      · exact not_even_of_lt hx heven hy heven' nearest hsame hlt
      · exact not_even_of_lt hy heven' hx heven nearest' hsame.symm hlt

end Number

end ColumnQuery
