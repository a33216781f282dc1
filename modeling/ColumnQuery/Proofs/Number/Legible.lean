/-
  The texts of doubles read back.

  The layouts of a numeral without an exponent move its point and fill its digits up with zeros, and
  the value of the text is the value of the numeral (`spells_positional`). The shortest numeral of a
  double lies in its interval, so its text reads as the double. So does the text of a whole number
  that 64 bits hold, which is written by its own digits (`legible_of_finite`).
-/
import ColumnQuery.Proofs.Number.Shortest
import Mathlib.Data.List.TakeWhile

namespace ColumnQuery

namespace Number

open Decimal

/-! ## Digits -/

theorem natOfDigits_toDigits (n : Nat) : Decimal.natOfDigits (Nat.toDigits 10 n) = n :=
  Nat.ofDigitChars_ten_toDigits

theorem isDigit_of_mem_toDigits {n : Nat} {c : Char} (h : c ∈ Nat.toDigits 10 n) :
    c.isDigit = true := Nat.isDigit_of_mem_toDigits (by decide) (by decide) h

theorem splitSign_of_isDigit {c : Char} (h : c.isDigit = true) (cs : List Char) :
    Decimal.splitSign (c :: cs) = (false, c :: cs) := by
  unfold Decimal.splitSign
  split
  next heq =>
    cases heq
    cases h
  next heq =>
    cases heq
    cases h
  next => rfl

variable {ds fs es : List Char}

theorem spanDigits_append {rest : List Char} (hds : ∀ c ∈ ds, c.isDigit = true)
    (hrest : ∀ c ∈ rest.head?, c.isDigit = false) : spanDigits (ds ++ rest) = (ds, rest) := by
  unfold spanDigits
  rw [List.takeWhile_append_of_pos hds, List.dropWhile_append_of_pos hds]
  cases rest with
  | nil => simp
  | cons c rest =>
    have hc : ¬ c.isDigit = true := by simpa using hrest c rfl
    rw [List.takeWhile_cons_of_neg hc, List.dropWhile_cons_of_neg hc, List.append_nil]

theorem spanFraction_whole (hds : ∀ c ∈ ds, c.isDigit = true)
    (hhead : ∀ c ∈ es.head?, c.isDigit = false ∧ c ≠ '.') :
    spanFraction (ds ++ es) = (ds, [], es) := by
  unfold spanFraction
  rw [spanDigits_append hds fun c hc => (hhead c hc).1]
  dsimp only
  split
  next rest => exact absurd rfl (hhead '.' rfl).2
  next => rfl

theorem spanFraction_point (hds : ∀ c ∈ ds, c.isDigit = true)
    (hfs : ∀ c ∈ fs, c.isDigit = true) (hhead : ∀ c ∈ es.head?, c.isDigit = false) :
    spanFraction (ds ++ '.' :: fs ++ es) = (ds, fs, es) := by
  have hpoint : ∀ c ∈ ('.' :: (fs ++ es)).head?, c.isDigit = false := by
    rintro c ⟨⟩
    rfl
  unfold spanFraction
  rw [List.append_assoc, List.cons_append, spanDigits_append hds hpoint]
  show (ds, (spanDigits (fs ++ es)).1, (spanDigits (fs ++ es)).2) = _
  rw [spanDigits_append hfs hhead]

/-- Digits are a numeral. -/
theorem read?_digits (hne : ds ≠ []) (hdigits : ∀ c ∈ ds, c.isDigit = true) :
    read? ds = some ⟨false, natOfDigits ds, 0⟩ := by
  have hsign : splitSign ds = (false, ds) := by
    obtain ⟨c, cs, rfl⟩ := List.exists_cons_of_ne_nil hne
    exact splitSign_of_isDigit (hdigits c List.mem_cons_self) cs
  have hspan : spanFraction (ds ++ []) = (ds, [], []) := spanFraction_whole hdigits (by simp)
  rw [List.append_nil] at hspan
  unfold read? readUnsigned?
  rw [hsign]
  dsimp only
  rw [hspan]
  simp [hne, readExponent?]

/-- Digits with a point perhaps, that spell a positive number. -/
structure Spells (cs : List Char) (v : Rat) : Prop where
  opens : cs.head?.any Char.isDigit = true
  plain : ∀ c ∈ cs, (c.isDigit || c == '.') = true
  reads : ∃ c k, read? cs = some ⟨false, c, k⟩ ∧ (c : Rat) * 10 ^ k = v

theorem opens_of_digits (hne : ds ≠ []) (hdigits : ∀ c ∈ ds, c.isDigit = true) (cs : List Char) :
    (ds ++ cs).head?.any Char.isDigit = true := by
  obtain ⟨c, ds, rfl⟩ := List.exists_cons_of_ne_nil hne
  exact hdigits c List.mem_cons_self

theorem spells_digits (hne : ds ≠ []) (hdigits : ∀ c ∈ ds, c.isDigit = true) :
    Spells ds (natOfDigits ds) := by
  refine ⟨?_, fun c hc => ?_, natOfDigits ds, 0, read?_digits hne hdigits, by simp⟩
  · simpa using opens_of_digits hne hdigits []
  · rw [hdigits c hc]
    rfl

/-- Digits before and after a point. -/
theorem spells_point (hne : ds ≠ []) (hds : ∀ c ∈ ds, c.isDigit = true)
    (hfs : ∀ c ∈ fs, c.isDigit = true) :
    Spells (ds ++ '.' :: fs) (natOfDigits (ds ++ fs) * 10 ^ (-(fs.length : Int))) := by
  refine ⟨opens_of_digits hne hds _, fun c hc => ?_, natOfDigits (ds ++ fs), -fs.length, ?_, rfl⟩
  · rcases List.mem_append.1 hc with hc | hc
    · rw [hds c hc]
      rfl
    · rcases List.mem_cons.1 hc with rfl | hc
      · rfl
      · rw [hfs c hc]
        rfl
  · have hsign : splitSign (ds ++ '.' :: fs) = (false, ds ++ '.' :: fs) := by
      obtain ⟨c, cs, rfl⟩ := List.exists_cons_of_ne_nil hne
      exact splitSign_of_isDigit (hds c List.mem_cons_self) _
    have hspan : spanFraction (ds ++ '.' :: fs ++ []) = (ds, fs, []) :=
      spanFraction_point hds hfs (by simp)
    rw [List.append_nil] at hspan
    unfold read? readUnsigned?
    rw [hsign]
    dsimp only
    rw [hspan]
    simp [hne, readExponent?]

/-- Zeros after digits. -/
theorem foldl_zeros (n k : Nat) :
    (List.replicate k '0').foldl (fun n c => 10 * n + (c.toNat - '0'.toNat)) n = n * 10 ^ k := by
  induction k generalizing n with
  | zero => simp
  | succ k ih =>
    rw [List.replicate_succ, List.foldl_cons, ih, Nat.pow_succ]
    simp
    ring

theorem natOfDigits_zeros (ds : List Char) (k : Nat) :
    natOfDigits (ds ++ List.replicate k '0') = natOfDigits ds * 10 ^ k := by
  unfold natOfDigits
  rw [List.foldl_append, foldl_zeros]

theorem natOfDigits_zeros_append (ds : List Char) (k : Nat) :
    natOfDigits (List.replicate k '0' ++ ds) = natOfDigits ds := by
  unfold natOfDigits
  rw [List.foldl_append, foldl_zeros, Nat.zero_mul]

theorem isDigit_of_mem_zeros {k : Nat} {c : Char} (h : c ∈ List.replicate k '0') :
    c.isDigit = true := by
  rw [List.eq_of_mem_replicate h]
  rfl

/-! ## Layouts -/

/-- The text of a numeral spells its value, wherever its point stands. -/
theorem spells_positional (c : Nat) (k : Int) :
    Spells ((Decimal.mk false c k).positional 0).toList (c * 10 ^ k) := by
  have hdigits : ∀ x ∈ Nat.toDigits 10 c, x.isDigit = true := fun _ hx => isDigit_of_mem_toDigits hx
  have hne : Nat.toDigits 10 c ≠ [] := Nat.toDigits_ne_nil
  have hvalue := natOfDigits_toDigits c
  generalize hds : Nat.toDigits 10 c = ds at hdigits hne hvalue
  unfold positional
  dsimp only
  rw [hds, if_neg Bool.false_ne_true, String.empty_append]
  split
  next hwhole =>
    -- nothing but zeros before the point
    have hzeros : ∀ x ∈ List.replicate (-((ds.length : Int) + k)).toNat '0' ++ ds,
        x.isDigit = true := by
      intro x hx
      rcases List.mem_append.1 hx with hx | hx
      · exact isDigit_of_mem_zeros hx
      · exact hdigits x hx
    have hspells := spells_point (List.cons_ne_nil '0' []) (by simp) hzeros
    have hlength : -(((List.replicate (-((ds.length : Int) + k)).toNat '0' ++ ds).length : Nat) : Int)
        = k := by
      simp
      omega
    rw [hlength, ← List.replicate_one, ← List.append_assoc, List.replicate_append_replicate,
      natOfDigits_zeros_append, hvalue] at hspells
    simpa [zeros] using hspells
  next hwhole =>
    by_cases hneg : k < 0
    · have hlength : -((ds.drop ((ds.length : Int) + k).toNat).length : Int) = k := by
        rw [List.length_drop]
        omega
      have htake : ds.take ((ds.length : Int) + k).toNat ≠ [] := by
        rw [← List.length_pos_iff, List.length_take]
        omega
      have hdrop : ∀ x ∈ ds.drop ((ds.length : Int) + k).toNat, x.isDigit = true :=
        fun x hx => hdigits x (List.mem_of_mem_drop hx)
      have hspells := spells_point htake (fun x hx => hdigits x (List.mem_of_mem_take hx)) hdrop
      rw [List.take_append_drop, hvalue, hlength] at hspells
      rw [if_pos hneg, if_pos (by omega)]
      simpa using hspells
    · have hall : ∀ x ∈ ds ++ List.replicate k.toNat '0', x.isDigit = true := by
        intro x hx
        rcases List.mem_append.1 hx with hx | hx
        · exact hdigits x hx
        · exact isDigit_of_mem_zeros hx
      have hspells := spells_digits (by simp [hne]) hall
      rw [natOfDigits_zeros, hvalue] at hspells
      push_cast at hspells
      rw [← zpow_natCast, Int.toNat_of_nonneg (by omega)] at hspells
      rw [if_neg hneg, if_neg (Nat.lt_irrefl 0), if_pos rfl, String.append_empty]
      simpa [zeros] using hspells

/-! ## Doubles -/

variable {x : Float} {m : Nat} {q : Int}

/-- A number is in its own interval. -/
theorem Near.self (m : Nat) (q : Int) : Near m q (m * 2 ^ q) := by
  have hpow := two_zpow_pos (q - 2)
  have hvalue : (m : Rat) * 2 ^ q = 4 * m * 2 ^ (q - 2) := by
    rw [zpow_sub₀ (by norm_num)]
    norm_num
    ring
  have hbelow : (0 : Rat) < below m q := by exact_mod_cast below_pos m q
  rw [hvalue]
  have hlow : (4 * m - below m q : Rat) * 2 ^ (q - 2) < 4 * m * 2 ^ (q - 2) :=
    mul_lt_mul_of_pos_right (by linarith) hpow
  have hhigh : (4 * m : Rat) * 2 ^ (q - 2) < (4 * m + 2) * 2 ^ (q - 2) :=
    mul_lt_mul_of_pos_right (by linarith) hpow
  exact ⟨hlow.le, hhigh.le, fun _ => ⟨hlow, hhigh⟩⟩

theorem wholePart_value (h : Binary64.isWhole m q = true) :
    (Binary64.wholePart m q : Rat) = m * 2 ^ q := by
  unfold Binary64.isWhole at h
  unfold Binary64.wholePart
  split
  next hge =>
    show ((m * 2 ^ q.toNat : Nat) : Rat) = _
    push_cast
    rw [← zpow_natCast, Int.toNat_of_nonneg hge]
  next hneg =>
    obtain ⟨n, rfl⟩ : 2 ^ (-q).toNat ∣ m := Nat.dvd_of_mod_eq_zero (by simpa [hneg] using h)
    show ((2 ^ (-q).toNat * n / 2 ^ (-q).toNat : Nat) : Rat) = _
    have hpow := zpow_mul_toNat (two_ne_zero : (2 : Rat) ≠ 0) q
    rw [Int.toNat_eq_zero.2 (by omega : q ≤ 0), pow_zero] at hpow
    rw [Nat.mul_div_cancel_left _ (Nat.two_pow_pos _)]
    push_cast
    rw [mul_right_comm, mul_comm ((2 : Rat) ^ (-q).toNat), hpow, one_mul]

/-- A number whose text, digits and perhaps a point, reads as the number. -/
structure Legible (x : Float) : Prop where
  nonnegative : decide (x < 0.0) = false
  opens : (text x).toList.head?.any Char.isDigit = true
  plain : ∀ c ∈ (text x).toList, (c.isDigit || c == '.') = true
  reads : (Decimal.read? (text x).toList).map Decimal.toFloat = some x

/-- A double whose text spells a number of its interval is legible. -/
theorem legible_of_spells (hx : Binary64.ofFloat x = .finite false m q) (hm : 0 < m) {v : Rat}
    (hv : Near m q v) (h : Spells (text x).toList v) : Legible x := by
  obtain ⟨c, k, hread, rfl⟩ := h.reads
  refine ⟨?_, h.opens, h.plain, ?_⟩
  · rw [decide_eq_false_iff_not]
    intro hlt
    obtain ⟨-, heq | ⟨m', e', -, heq⟩⟩ := ofFloat_of_lt_zero hlt
    · rw [hx] at heq
      cases heq
    · rw [hx] at heq
      cases heq
  · rw [hread]
    exact congrArg some (magnitude_of_near hx hm hv)

theorem legible_zero : Legible 0.0 := by
  refine ⟨by decide +kernel, by decide +kernel, ?_, by decide +kernel⟩
  have hall : (text 0.0).toList.all (fun c => c.isDigit || c == '.') = true := by decide +kernel
  exact List.all_eq_true.1 hall

/-- A number from zero up reads back from its text unless it is whole and beyond 64 bits. -/
theorem legible_of_finite (hx : Binary64.ofFloat x = .finite false m q)
    (hheld : isHeld x = false) : Legible x := by
  obtain ⟨rfl, rfl⟩ | ⟨hm, -⟩ := eq_of_ofFloat hx
  · exact legible_zero
  · have htext : text x = if Binary64.isWhole m q && Binary64.wholePart m q < wholeLimit
        then toString (toInt64 x) else (Decimal.shortest false m q).positional 0 := by
      unfold text
      rw [hx]
    split at htext
    next hwhole =>
      obtain ⟨hwhole, hlimit⟩ := Bool.and_eq_true_iff.1 hwhole
      have hrange : Binary64.wholePart m q < 2 ^ 63 := by
        unfold isHeld at hheld
        rw [hx] at hheld
        simp only [hwhole, hlimit, Bool.true_and, Bool.and_true] at hheld
        exact Nat.not_le.1 (of_decide_eq_false hheld)
      have hinteger : toInt64 x = (Binary64.wholePart m q : Int) := by
        unfold toInt64 clamped minInt64 maxInt64
        rw [hx]
        simp only [Bool.false_eq_true, if_false]
        omega
      refine legible_of_spells hx hm (wholePart_value hwhole ▸ Near.self m q) ?_
      have hdigits : (text x).toList = Nat.toDigits 10 (Binary64.wholePart m q) := by
        rw [htext, hinteger]
        exact Nat.toList_repr
      have hspells := spells_digits Nat.toDigits_ne_nil fun c hc =>
        isDigit_of_mem_toDigits (n := Binary64.wholePart m q) hc
      rwa [natOfDigits_toDigits, ← hdigits] at hspells
    next =>
      obtain ⟨c, k, hshortest, hnear⟩ := shortest_near (isDouble_of_ofFloat hx hm) false
      refine legible_of_spells hx hm hnear ?_
      rw [htext, hshortest]
      exact spells_positional c k

/-! ## Numbers that texts spell -/

/-- Whether a text spells a number, after a minus if it is negative: the number is finite and no
    zero with a minus, and not beyond 64 bits if it is whole. -/
def isSpelled (x : Float) : Bool :=
  match Binary64.ofFloat x with
  | .finite negative m _ => (!negative || m != 0) && !isHeld x
  | _ => false

theorem isHeld_of_isSpelled (h : isSpelled x = true) : isHeld x = false := by
  unfold isSpelled at h
  split at h
  next => simpa using (Bool.and_eq_true_iff.1 h).2
  next => cases h

theorem legible_of_isSpelled (h : isSpelled x = true) (hx : ¬ x < 0.0) : Legible x := by
  have hheld := isHeld_of_isSpelled h
  unfold isSpelled at h
  split at h
  next negative m e hfinite =>
    obtain ⟨hzero, -⟩ := Bool.and_eq_true_iff.1 h
    cases negative with
    | false => exact legible_of_finite hfinite hheld
    | true =>
      refine absurd (lt_zero_of_ofFloat hfinite (Nat.pos_of_ne_zero ?_)) hx
      simpa using hzero
  next => cases h

theorem legible_neg_of_isSpelled (h : isSpelled x = true) (hx : x < 0.0) : Legible (-x) := by
  obtain ⟨hnumber, hinfinite | ⟨m, e, -, hfinite⟩⟩ := ofFloat_of_lt_zero hx
  · unfold isSpelled at h
    rw [hinfinite] at h
    cases h
  · have hopposite : Binary64.ofFloat (-x) = .finite false m e := by
      rw [ofFloat_neg hnumber, hfinite]
      rfl
    refine legible_of_finite hopposite ?_
    have hheld := isHeld_of_isSpelled h
    unfold isHeld at hheld ⊢
    rw [hfinite] at hheld
    rw [hopposite]
    exact hheld

/-! ## Whole numbers of 64 bits -/

/-- Whether a whole number is the integer part of the double that its digits are read as, a negative
    one of the opposite of that double. -/
def isBound (n : Int) : Bool :=
  isIntegral (ofNat n.natAbs) && toInt64 (ofNat n.natAbs) == n.natAbs &&
    (0 ≤ n || toInt64 (-ofNat n.natAbs) == n)

variable {n : Nat}

theorem isBound_iff {n : Int} : isBound n = true ↔ isIntegral (ofNat n.natAbs) = true ∧
    toInt64 (ofNat n.natAbs) = n.natAbs ∧ (n < 0 → toInt64 (-ofNat n.natAbs) = n) := by
  unfold isBound
  rw [Bool.and_eq_true, Bool.and_eq_true, Bool.or_eq_true, beq_iff_eq, beq_iff_eq,
    decide_eq_true_eq, and_assoc, ← not_lt, ← imp_iff_not_or]

theorem isBound_natAbs {n : Int} (h : isBound n = true) : isBound n.natAbs = true := by
  obtain ⟨hintegral, hvalue, -⟩ := isBound_iff.1 h
  exact isBound_iff.2 ⟨hintegral, hvalue, fun hneg => absurd hneg (by omega)⟩

/-- What the double of a bound stands for. -/
theorem exists_of_isBound (h : isBound n = true) : ∃ negative m e,
    Binary64.ofFloat (ofNat n) = .finite negative m e ∧ Binary64.isWhole m e = true ∧
      toInt64 (ofNat n) = n ∧ (n : Int) = max minInt64 (min maxInt64
        (if negative then -(Binary64.wholePart m e : Int) else Binary64.wholePart m e)) := by
  obtain ⟨hintegral, hvalue, -⟩ := isBound_iff.1 h
  unfold isIntegral at hintegral
  split at hintegral
  next negative m e hfinite =>
    refine ⟨negative, m, e, hfinite, hintegral, hvalue, hvalue.symm.trans ?_⟩
    unfold toInt64 clamped
    rw [hfinite]
  next => cases hintegral

theorem not_lt_zero_of_isBound (h : isBound n = true) : ¬ ofNat n < 0.0 := by
  intro hlt
  obtain ⟨negative, m, e, hfinite, hwhole, -, hclamped⟩ := exists_of_isBound h
  obtain ⟨-, heq | ⟨m', e', hm, heq⟩⟩ := ofFloat_of_lt_zero hlt
  · rw [hfinite] at heq
    cases heq
  · rw [hfinite] at heq
    cases heq
    have hpos := wholePart_pos hm hwhole
    rw [if_pos rfl] at hclamped
    unfold minInt64 maxInt64 at hclamped
    omega

theorem text_of_isBound (h : isBound n = true) :
    (text (ofNat n)).toList = Nat.toDigits 10 n := by
  obtain ⟨negative, m, e, hfinite, hwhole, hvalue, hclamped⟩ := exists_of_isBound h
  by_cases hmost : n = 0x7fffffffffffffff
  · rw [hmost]
    decide +kernel
  · have hlimit : Binary64.wholePart m e < wholeLimit := by
      have hlarge : 2 ^ 63 < wholeLimit := by decide
      unfold minInt64 maxInt64 at hclamped
      split at hclamped <;> omega
    unfold text
    rw [hfinite]
    dsimp only
    rw [hwhole, Bool.true_and, if_pos (decide_eq_true hlimit), hvalue]
    exact Nat.toList_repr

/-- The digits of a bound are read as its double. -/
theorem toFloat_of_isBound (h : isBound n = true) : (Decimal.mk false n 0).toFloat = ofNat n := by
  obtain ⟨_, _, _, -, -, -, hclamped⟩ := exists_of_isBound h
  have hrange : n < 10 ^ 19 := by
    unfold minInt64 maxInt64 at hclamped
    omega
  have hcount : Decimal.digitCount n ≤ 19 :=
    (Nat.length_toDigits_le_iff (by decide) (by decide)).2 hrange
  unfold Decimal.toFloat Decimal.magnitude
  dsimp only
  rw [if_neg Bool.false_ne_true]
  split
  next hzero =>
    subst hzero
    rfl
  next =>
    rw [if_neg (by omega), if_neg (by omega)]
    rfl

theorem legible_of_isBound (h : isBound n = true) : Legible (ofNat n) := by
  have htext := text_of_isBound h
  have hspells := spells_digits Nat.toDigits_ne_nil fun c hc => isDigit_of_mem_toDigits (n := n) hc
  refine ⟨decide_eq_false (not_lt_zero_of_isBound h), htext ▸ hspells.opens,
    htext ▸ hspells.plain, ?_⟩
  rw [htext, read?_digits Nat.toDigits_ne_nil fun c hc => isDigit_of_mem_toDigits hc,
    natOfDigits_toDigits]
  exact congrArg some (toFloat_of_isBound h)

/-- The whole numbers below `2^53` are bounds. -/
theorem isBound_of_natAbs_lt {n : Int} (h : n.natAbs < 2 ^ 53) : isBound n = true := by
  refine isBound_iff.2 ⟨isIntegral_ofNat h, toInt64_ofNat h, fun hneg => ?_⟩
  rw [toInt64_neg_ofNat h]
  omega

theorem legible_ofNat (h : n < 2 ^ 53) : Legible (ofNat n) :=
  legible_of_isBound (isBound_of_natAbs_lt (n := n) h)

end Number

end ColumnQuery
