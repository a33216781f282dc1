/-
  Numbers that are read back from their texts.

  The text of a number is read as a number again, by the conversion of strings and by the parser of
  expressions alike. Digits of a whole number are written from 64 bits while it is below `10^21`, so
  from `2^63` on they are those of the greatest one (`text_of_isHeld`). All other texts are read as
  the numbers that they are texts of (`Legible.coerce`). So a number comes back as itself but for
  the whole ones strictly between `2^63` and `10^21` on either side (`text_number_reads_back`).
-/
import ColumnQuery.Proofs.Number.Written
import ColumnQuery.Proofs.Syntax.Reading
import ColumnQuery.Value.Text

namespace ColumnQuery

/-! ## Trimming -/

theorem Text.trim_eq_self {cs : List Char} (h : ∀ c ∈ cs, isBlank c = false) : trim cs = cs := by
  have hdrop : ∀ ds : List Char, (∀ c ∈ ds, isBlank c = false) → ds.dropWhile isBlank = ds := by
    intro ds hds
    refine List.dropWhile_eq_self_iff.2 fun hlen => ?_
    rw [hds _ (List.getElem_mem hlen)]
    exact Bool.false_ne_true
  rw [trim, trimLeft, hdrop cs h, trimRight, hdrop _ fun c hc => h c (List.mem_reverse.1 hc),
    List.reverse_reverse]

namespace Number

open Decimal

variable {x : Float} {m : Nat} {q : Int} {v : Rat} {negative : Bool} {cs : List Char}

/-! ## Texts of digits -/

theorem isBlank_of_plain {c : Char} (h : (c.isDigit || c == '.') = true) :
    Text.isBlank c = false := by
  rw [Bool.or_eq_true, beq_iff_eq] at h
  rcases h with h | rfl
  · have hlow : 48 ≤ c.toNat := (Char.isDigit_iff_toNat.1 h).1
    have hhigh : c.toNat ≤ 57 := (Char.isDigit_iff_toNat.1 h).2
    unfold Text.isBlank Text.isAscii
    rw [if_pos (by simp; omega)]
    simp
    omega
  · decide

theorem coerce_of_read? {d : Decimal} {s : String} (hplain : ∀ c ∈ s.toList, Text.isBlank c = false)
    (h : read? s.toList = some d) : coerce s = d.toFloat := by
  rw [coerce, Text.trim_eq_self hplain]
  exact coerceTrimmed_of_read? h

/-- The text of a legible number is read as the number. -/
theorem Legible.coerce (h : Legible x) : coerce (text x) = x := by
  obtain ⟨d, hread, hd⟩ := Option.map_eq_some_iff.1 h.reads
  rw [coerce_of_read? (fun c hc => isBlank_of_plain (h.plain c hc)) hread, hd]

/-- After a minus, what is read without a sign is read as the opposite number. -/
theorem read?_minus {d : Decimal} (hsign : splitSign cs = (false, cs)) (h : read? cs = some d) :
    ∃ d', read? ('-' :: cs) = some d' ∧ d'.toFloat = -d.toFloat := by
  have hread : readUnsigned? false cs = some d := by
    unfold read? at h
    rwa [hsign] at h
  unfold readUnsigned? at hread
  show ∃ d', readUnsigned? true cs = some d' ∧ _
  unfold readUnsigned?
  dsimp only at hread ⊢
  split at hread
  next => cases hread
  next hsome =>
    obtain ⟨e, he, rfl⟩ := Option.map_eq_some_iff.1 hread
    rw [if_neg hsome, he]
    exact ⟨_, rfl, rfl⟩

/-- With a minus before it the text of a legible number is read as the opposite number. -/
theorem Legible.coerce_minus (h : Legible x) : Number.coerce ("-" ++ text x) = -x := by
  obtain ⟨d, hread, rfl⟩ := Option.map_eq_some_iff.1 h.reads
  have hplain : ∀ c ∈ ("-" ++ text d.toFloat).toList, Text.isBlank c = false := by
    rw [String.toList_append]
    exact List.forall_mem_append.2
      ⟨List.forall_mem_singleton.2 (by decide), fun c hc => isBlank_of_plain (h.plain c hc)⟩
  have hsign : splitSign (text d.toFloat).toList = (false, (text d.toFloat).toList) := by
    have hopens := h.opens
    cases hlist : (text d.toFloat).toList with
    | nil => rfl
    | cons c cs =>
      rw [hlist] at hopens
      exact splitSign_of_isDigit hopens cs
  obtain ⟨d', hminus, hd'⟩ := read?_minus hsign hread
  rw [← hd']
  exact coerce_of_read? hplain (by rw [String.toList_append]; exact hminus)

/-! ## Whole numbers beyond 64 bits -/

theorem abs_value (hx : value? x = some v) : ∃ negative m q,
    Binary64.ofFloat x = .finite negative m q ∧ |v| = m * 2 ^ q ∧ (negative = true → v ≤ 0) ∧
      (negative = false → 0 ≤ v) := by
  obtain ⟨negative, m, q, hform, rfl⟩ := value?_eq_some hx
  have hnonneg : (0 : Rat) ≤ m * 2 ^ q := by positivity
  refine ⟨negative, m, q, hform, ?_, ?_, ?_⟩
  · cases negative with
    | false => exact abs_of_nonneg hnonneg
    | true => exact (abs_neg _).trans (abs_of_nonneg hnonneg)
  · rintro rfl
    exact neg_nonpos.2 hnonneg
  · rintro rfl
    exact hnonneg

/-- Numbers from `2^63` up are whole. -/
theorem isWhole_of_le (hlt : m < 2 ^ 53) (h : (2 ^ 63 : Rat) ≤ m * 2 ^ q) :
    Binary64.isWhole m q = true := by
  have hq : 0 ≤ q := by
    by_contra hneg
    have hpow : (2 : Rat) ^ q ≤ 1 := zpow_le_one_of_nonpos₀ (by norm_num) (by omega)
    have hm : (m : Rat) < 2 ^ 53 := by exact_mod_cast hlt
    have hle : (m : Rat) * 2 ^ q ≤ m := mul_le_of_le_one_right (Nat.cast_nonneg m) hpow
    linarith
  unfold Binary64.isWhole
  simp [hq]

/-- The numbers that are held are those from `2^63` up and below `10^21`, or opposite to such. -/
theorem isHeld_iff (hx : value? x = some v) :
    isHeld x = true ↔ 2 ^ 63 ≤ |v| ∧ |v| < 10 ^ 21 := by
  obtain ⟨negative, m, q, hform, habs, -, -⟩ := abs_value hx
  have hlt : m < 2 ^ 53 := by
    rcases Nat.eq_zero_or_pos m with rfl | hm
    · decide
    · exact (isDouble_of_ofFloat hform hm).lt
  unfold isHeld
  rw [hform, habs, Bool.and_eq_true, Bool.and_eq_true, decide_eq_true_iff, decide_eq_true_iff,
    and_assoc]
  constructor
  · rintro ⟨hwhole, hlow, hhigh⟩
    rw [← wholePart_value hwhole]
    exact ⟨by exact_mod_cast hlow, by exact_mod_cast hhigh⟩
  · rintro ⟨hlow, hhigh⟩
    have hwhole := isWhole_of_le hlt hlow
    rw [← wholePart_value hwhole] at hlow hhigh
    exact ⟨hwhole, by exact_mod_cast hlow, by exact_mod_cast hhigh⟩

/-- A number that is held has the text of the greatest or of the least whole number of 64 bits. -/
theorem text_of_isHeld (hx : Binary64.ofFloat x = .finite negative m q) (h : isHeld x = true) :
    text x = toString (if negative then minInt64 else maxInt64) := by
  unfold isHeld at h
  rw [hx] at h
  simp only [Bool.and_eq_true, decide_eq_true_iff] at h
  obtain ⟨⟨hwhole, hlow⟩, hlimit⟩ := h
  unfold text toInt64 clamped
  rw [hx]
  simp only [hwhole, hlimit, decide_true, Bool.and_self, if_true]
  congr 1
  unfold minInt64 maxInt64
  cases negative <;> simp <;> omega

/-! ## Numbers read back -/

/-- What the text of a number is read as. Below `10^21` its digits go through 64 bits, and the ends
    of that range are read as `2^63` and its opposite. -/
def readBack (v : Rat) : Rat := if |v| < 10 ^ 21 then max (-2 ^ 63) (min (2 ^ 63) v) else v

theorem readBack_of_not_held (h : ¬ (2 ^ 63 ≤ |v| ∧ |v| < 10 ^ 21)) : readBack v = v := by
  unfold readBack
  split
  next hlt =>
    have hlow : |v| < 2 ^ 63 := not_le.1 fun hle => h ⟨hle, hlt⟩
    obtain ⟨hneg, hpos⟩ := abs_lt.1 hlow
    rw [min_eq_right hpos.le, max_eq_right hneg.le]
  next => rfl

theorem readBack_of_nonneg (hv : 0 ≤ v) (h : 2 ^ 63 ≤ |v| ∧ |v| < 10 ^ 21) :
    readBack v = 2 ^ 63 := by
  rw [abs_of_nonneg hv] at h
  rw [readBack, abs_of_nonneg hv, if_pos h.2, min_eq_left h.1]
  exact max_eq_right (by norm_num)

theorem readBack_of_nonpos (hv : v ≤ 0) (h : 2 ^ 63 ≤ |v| ∧ |v| < 10 ^ 21) :
    readBack v = -2 ^ 63 := by
  rw [abs_of_nonpos hv] at h
  have hle : v ≤ 2 ^ 63 := hv.trans (by norm_num)
  rw [readBack, abs_of_nonpos hv, if_pos h.2, min_eq_right hle]
  exact max_eq_left (le_neg.1 h.1)

/-- The numbers that do not come back are the ones strictly between the bound and the limit. -/
theorem readBack_eq_self_iff : readBack v = v ↔ ¬ (2 ^ 63 < |v| ∧ |v| < 10 ^ 21) := by
  by_cases hheld : 2 ^ 63 ≤ |v| ∧ |v| < 10 ^ 21
  · have habs : |readBack v| = 2 ^ 63 := by
      rcases le_total 0 v with hv | hv
      · rw [readBack_of_nonneg hv hheld, abs_of_nonneg (by norm_num)]
      · rw [readBack_of_nonpos hv hheld, abs_neg, abs_of_nonneg (by norm_num)]
    constructor
    · rintro heq ⟨hlt, -⟩
      rw [heq] at habs
      exact absurd habs hlt.ne'
    · intro h
      have hbound : |v| = 2 ^ 63 := le_antisymm (not_lt.1 fun hlt => h ⟨hlt, hheld.2⟩) hheld.1
      rcases le_total 0 v with hv | hv
      · rw [readBack_of_nonneg hv hheld, ← hbound, abs_of_nonneg hv]
      · rw [abs_of_nonpos hv] at hbound
        rw [readBack_of_nonpos hv hheld, ← hbound]
        linarith
  · refine iff_of_true (readBack_of_not_held hheld) fun h => hheld ⟨h.1.le, h.2⟩

theorem value?_two_pow_63 : value? (ofNat 0x7fffffffffffffff) = some (2 ^ 63) := by
  rw [value?_of_finite (by decide +kernel :
    Binary64.ofFloat (ofNat 0x7fffffffffffffff) = .finite false (2 ^ 52) 11)]
  norm_num

theorem readBack_of_isHeld (hx : value? x = some v) (h : isHeld x = false) : readBack v = v := by
  refine readBack_of_not_held (mt (isHeld_iff hx).2 ?_)
  rw [h]
  exact Bool.false_ne_true

theorem eq_neg_zero (h : Binary64.ofFloat x = .finite true 0 q) : x = -0.0 := by
  have hnumber : x.isNaN = false := isNaN_of_ofFloat (by rw [h]; exact nofun)
  have hopposite : Binary64.ofFloat (-x) = .finite false 0 q := by
    rw [ofFloat_neg hnumber, h]
    rfl
  obtain ⟨-, hzero⟩ | ⟨hm, -⟩ := eq_of_ofFloat hopposite
  · rw [← hzero, neg_neg hnumber]
  · exact absurd hm (lt_irrefl 0)

/-- The text of a number from zero up is that of a legible number. -/
theorem exists_legible (hx : value? x = some v) (hv : 0 ≤ v) :
    ∃ y, Legible y ∧ text x = text y ∧ value? y = some (readBack v) := by
  obtain ⟨negative, m, q, hform, habs, hnonpos, -⟩ := abs_value hx
  have hzero : negative = true → m = 0 := by
    rintro rfl
    rw [le_antisymm (hnonpos rfl) hv, abs_zero, eq_comm, mul_eq_zero] at habs
    exact_mod_cast habs.resolve_right (two_zpow_pos q).ne'
  cases hheld : isHeld x with
  | true =>
    have hrange := (isHeld_iff hx).1 hheld
    have hpositive : negative = false := by
      rw [← Bool.not_eq_true]
      intro hneg
      rw [habs, hzero hneg, Nat.cast_zero, zero_mul] at hrange
      exact absurd hrange.1 (by norm_num)
    refine ⟨ofNat 0x7fffffffffffffff, legible_of_isBound (by decide +kernel), ?_, ?_⟩
    · rw [text_of_isHeld hform hheld, hpositive]
      decide +kernel
    · rw [readBack_of_nonneg hv hrange]
      exact value?_two_pow_63
  | false =>
    have hback := readBack_of_isHeld hx hheld
    cases negative with
    | false => exact ⟨x, legible_of_finite hform hheld, rfl, by rw [hback, hx]⟩
    | true =>
      -- a zero with a minus, whose text has none
      obtain rfl := hzero rfl
      obtain rfl := eq_neg_zero hform
      obtain rfl := le_antisymm (hnonpos rfl) hv
      refine ⟨0.0, legible_zero, by decide +kernel, ?_⟩
      rw [hback,
        value?_of_finite (by decide +kernel : Binary64.ofFloat 0.0 = .finite false 0 (-1074))]
      norm_num

/-- The text of a negative number that is not held is read as the number. -/
theorem coerce_text_negative (hx : Binary64.ofFloat x = .finite true m q) (hm : 0 < m)
    (hheld : isHeld x = false) : coerce (text x) = x := by
  have hlt := lt_zero_of_ofFloat hx hm
  have hspelled : isSpelled x = true := by
    unfold isSpelled
    rw [hx, hheld]
    simpa using hm.ne'
  rw [text_negative hlt hheld, (legible_neg_of_isSpelled hspelled hlt).coerce_minus,
    neg_neg (ofFloat_of_lt_zero hlt).1]

/-- A text of a number is read as the number within the range of 64 bits. -/
theorem value?_coerce_text (hx : value? x = some v) :
    value? (coerce (text x)) = some (readBack v) := by
  rcases le_or_gt 0 v with hv | hv
  · obtain ⟨y, hy, htext, hvalue⟩ := exists_legible hx hv
    rw [htext, hy.coerce, hvalue]
  · obtain ⟨negative, m, q, hform, habs, -, hnonneg⟩ := abs_value hx
    obtain rfl : negative = true := by
      rw [← Bool.not_eq_false]
      exact fun h => absurd (hnonneg h) (not_le.2 hv)
    have hm : 0 < m := by
      rw [Nat.pos_iff_ne_zero]
      rintro rfl
      rw [Nat.cast_zero, zero_mul, abs_eq_zero] at habs
      exact absurd habs hv.ne
    cases hheld : isHeld x with
    | true =>
      have hrange := (isHeld_iff hx).1 hheld
      rw [text_of_isHeld hform hheld, readBack_of_nonpos hv.le hrange, if_pos rfl,
        value?_of_finite (by decide +kernel :
        Binary64.ofFloat (coerce (toString minInt64)) = .finite true (2 ^ 52) 11)]
      norm_num
    | false => rw [coerce_text_negative hform hm hheld, hx, readBack_of_isHeld hx hheld]

end Number

/-- The parser reads the text of a legible number as the number. -/
theorem Node.parse_number {y : Float} (hy : Number.Legible y) :
    parse (Number.text y) = .ok (literal (.number y)) := by
  have htext : (literal (.number y)).textWith .standard = Number.text y := by
    rw [textWith]
    rfl
  have hspellable : Spellable Number.Legible (literal (.number y)) := .number hy
  rw [← htext]
  exact hspellable.parse_textWith (fun _ h => h) .standard

namespace Value

open Number

variable {x : Float} {v : Rat}

/-- The text of a finite number is read as the number within the range of 64 bits, so it is read
    back unless the number is beyond that range and below `10^21`. The parser reads the text of a
    number from zero up as a literal of the same number. -/
theorem text_number_reads_back (hx : value? x = some v) :
    value? (string (text (number x))).toFloat = some (readBack v) ∧
    (((string (text (number x))).toFloat == x) = true ↔ ¬ (2 ^ 63 < |v| ∧ |v| < 10 ^ 21)) ∧
    (0 ≤ v → Node.parse (text (number x))
      = .ok (.literal (.number (string (text (number x))).toFloat))) := by
  have htext : text (number x) = Number.text x := by rw [text]
  have hread : ∀ s, (string s).toFloat = coerce s := fun _ => rfl
  have hback := value?_coerce_text hx
  rw [htext, hread]
  refine ⟨hback, (beq_iff hback hx).trans readBack_eq_self_iff, fun hv => ?_⟩
  obtain ⟨y, hy, hsame, -⟩ := exists_legible hx hv
  rw [hsame, hy.coerce]
  exact Node.parse_number hy

/-- A half is read back, and `10^19` is not. -/
theorem text_number_reads_back_half :
    (value? 0.5 = some (1 / 2) ∧ ((string (text (number 0.5))).toFloat == 0.5) = true ∧
      Node.parse (text (number 0.5))
        = .ok (.literal (.number (string (text (number 0.5))).toFloat))) ∧
    value? 1e19 = some (10 ^ 19) ∧ ¬ ((string (text (number 1e19))).toFloat == 1e19) = true := by
  have hhalf : value? 0.5 = some (1 / 2) := by
    rw [value?_of_finite (by decide +kernel : Binary64.ofFloat 0.5 = .finite false (2 ^ 52) (-53))]
    norm_num
  have hheld : value? 1e19 = some (10 ^ 19) := by
    rw [value?_of_finite (by decide +kernel :
      Binary64.ofFloat 1e19 = .finite false 4882812500000000 11)]
    norm_num
  obtain ⟨-, hback, hparse⟩ := text_number_reads_back hhalf
  have hsmall : ¬ (2 ^ 63 < |(1 / 2 : Rat)| ∧ |(1 / 2 : Rat)| < 10 ^ 21) := by
    rw [abs_of_nonneg (by norm_num)]
    norm_num
  refine ⟨⟨hhalf, hback.2 hsmall, hparse (by norm_num)⟩, hheld, fun h => ?_⟩
  refine (text_number_reads_back hheld).2.1.1 h ?_
  rw [abs_of_nonneg (by norm_num)]
  norm_num

end Value

end ColumnQuery
