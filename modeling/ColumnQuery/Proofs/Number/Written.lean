/-
  Texts that are read as numbers.

  The grammar of such texts gives every one its number (`Written`): nothing at all, a word for
  infinity, digits of a radix after its mark, and plain decimal text. The reader takes a text apart
  as the grammar puts it together (`natOfRadix?_iff`, `readUnsigned?_of_written`), and rounds once.
  So a trimmed text is read as the double that its number is rounded to, and all others as
  not-a-number (`coerceTrimmed_of_written`, `written_of_coerceTrimmed`). Digits of a radix are held
  in 64 bits on the way: those that spell more are the exception (`Overlong`).
-/
import ColumnQuery.Proofs.Number.Rational
import ColumnQuery.Value.Basic
import Mathlib.Data.List.Induction

namespace ColumnQuery

namespace Number

open Decimal

variable {radix n : Nat} {cs ds es fs : List Char} {c : Char} {negative : Bool} {v : Rat} {e : Int}

/-! ## Grammar -/

/-- Digits of a radix, and the number that they spell. -/
inductive Digits (radix : Nat) : List Char → Nat → Prop
  | nil : Digits radix [] 0
  | snoc {ds : List Char} {n d : Nat} {c : Char} (h : Digits radix ds n)
    (hc : digitValue? radix c = some d) : Digits radix (ds ++ [c]) (radix * n + d)

/-- An optional sign; the flag tells a minus. -/
inductive Signed : List Char → Bool → Prop
  | none : Signed [] false
  | plus : Signed ['+'] false
  | minus : Signed ['-'] true

/-- Digits with an optional point, at least one before or after it. -/
inductive Mantissa : List Char → Rat → Prop
  | whole {ds : List Char} {n : Nat} (hne : ds ≠ []) (h : Digits 10 ds n) : Mantissa ds n
  | point {ds fs : List Char} {n : Nat} (hne : ds ≠ [] ∨ fs ≠ []) (h : Digits 10 (ds ++ fs) n) :
    Mantissa (ds ++ '.' :: fs) (n * 10 ^ (-fs.length : Int))

/-- An optional exponent: a mark, an optional sign, and one or more digits. -/
inductive Exponent : List Char → Int → Prop
  | none : Exponent [] 0
  | some {mark : Char} {sign ds : List Char} {negative : Bool} {n : Nat}
    (hmark : mark = 'e' ∨ mark = 'E') (hsign : Signed sign negative) (hne : ds ≠ [])
    (h : Digits 10 ds n) : Exponent (mark :: (sign ++ ds)) (if negative then -n else n)

/-- The letters that select a radix after a zero. -/
def radixMarks : List (Char × Nat) :=
  [('x', 16), ('X', 16), ('o', 8), ('O', 8), ('b', 2), ('B', 2)]

/-- The texts of numbers, without white space around them: whether there is a minus, and the
    magnitude, which infinity does not have. -/
inductive Written : List Char → Bool → Option Rat → Prop
  | blank : Written [] false (some 0)
  | infinity {sign : List Char} {negative : Bool} (hsign : Signed sign negative) :
    Written (sign ++ "Infinity".toList) negative none
  | radix {mark : Char} {radix n : Nat} {ds : List Char} (hmark : (mark, radix) ∈ radixMarks)
    (hne : ds ≠ []) (h : Digits radix ds n) : Written ('0' :: mark :: ds) false (some n)
  | decimal {sign cs es : List Char} {negative : Bool} {v : Rat} {e : Int}
    (hsign : Signed sign negative) (hmantissa : Mantissa cs v) (hexponent : Exponent es e) :
    Written (sign ++ cs ++ es) negative (some (v * 10 ^ e))

/-- Digits after a radix mark that spell a number beyond 64 bits. -/
def Overlong (cs : List Char) : Prop :=
  ∃ mark radix ds n, (mark, radix) ∈ radixMarks ∧ cs = '0' :: mark :: ds ∧ Digits radix ds n ∧
    2 ^ 64 ≤ n

/-! ## Digits -/

theorem digits_nil_iff : Digits radix [] n ↔ n = 0 := by
  constructor
  · generalize hcs : ([] : List Char) = cs
    intro h
    cases h with
    | nil => rfl
    | snoc => simp at hcs
  · rintro rfl
    exact .nil

theorem digits_concat_iff : Digits radix (ds ++ [c]) n ↔
    ∃ m d, Digits radix ds m ∧ digitValue? radix c = some d ∧ n = radix * m + d := by
  constructor
  · generalize hcs : ds ++ [c] = cs
    intro h
    cases h with
    | nil => simp at hcs
    | snoc h hc =>
      obtain ⟨rfl, hlast⟩ := List.append_inj' hcs rfl
      cases hlast
      exact ⟨_, _, h, hc, rfl⟩
  · rintro ⟨m, d, h, hc, rfl⟩
    exact .snoc h hc

/-- The digits of a radix are read one after the other. -/
theorem foldlM_eq_some_iff : ds.foldlM (fun n c => (digitValue? radix c).map (radix * n + ·)) 0
    = some n ↔ Digits radix ds n := by
  induction ds using List.reverseRecOn generalizing n with
  | nil => exact Option.some_inj.trans (eq_comm.trans digits_nil_iff.symm)
  | append_singleton ds c ih =>
    rw [List.foldlM_append, digits_concat_iff, Option.bind_eq_bind, Option.bind_eq_some_iff]
    constructor
    · rintro ⟨m, hm, hlast⟩
      obtain ⟨k, hk, hlast⟩ := Option.bind_eq_some_iff.1 hlast
      obtain ⟨d, hd, rfl⟩ := Option.map_eq_some_iff.1 hk
      exact ⟨m, d, ih.1 hm, hd, (Option.some.inj hlast).symm⟩
    · rintro ⟨m, d, hm, hd, rfl⟩
      refine ⟨m, ih.2 hm, ?_⟩
      rw [List.foldlM_cons, hd]
      rfl

theorem natOfRadix?_iff : natOfRadix? radix ds = some n ↔ ds ≠ [] ∧ Digits radix ds n := by
  unfold natOfRadix?
  rw [← foldlM_eq_some_iff]
  cases ds with
  | nil => simp
  | cons c ds => simp

/-- The decimal digits, and their values. -/
theorem digitValue?_ten {d : Nat} :
    digitValue? 10 c = some d ↔ c.isDigit = true ∧ d = c.toNat - '0'.toNat := by
  have hrange : c.isDigit = true → c.toNat - '0'.toNat < 10 := by
    intro hdigit
    have hle : c.toNat ≤ 57 := (Char.isDigit_iff_toNat.1 hdigit).2
    show c.toNat - 48 < 10
    omega
  unfold digitValue?
  dsimp only
  by_cases hdigit : c.isDigit = true
  · rw [if_pos hdigit, Option.filter_some, if_pos (decide_eq_true (hrange hdigit))]
    simp [hdigit, eq_comm]
  · rw [if_neg hdigit]
    refine iff_of_false (fun h => ?_) fun h => hdigit h.1
    obtain ⟨h, hlt⟩ := Option.filter_eq_some_iff.1 h
    have hlt := of_decide_eq_true hlt
    split at h
    · cases h
      omega
    · split at h
      · cases h
        omega
      · cases h

/-- Decimal digits spell what they are read as. -/
theorem digits_ten_iff : Digits 10 ds n ↔ (∀ c ∈ ds, c.isDigit = true) ∧ natOfDigits ds = n := by
  induction ds using List.reverseRecOn generalizing n with
  | nil =>
    rw [digits_nil_iff]
    exact ⟨fun h => ⟨by simp, h.symm⟩, fun h => h.2.symm⟩
  | append_singleton ds c ih =>
    have hlast : natOfDigits (ds ++ [c]) = 10 * natOfDigits ds + (c.toNat - '0'.toNat) := by
      unfold natOfDigits
      rw [List.foldl_append]
      rfl
    rw [digits_concat_iff, hlast]
    constructor
    · rintro ⟨m, d, h, hc, rfl⟩
      obtain ⟨hdigits, rfl⟩ := ih.1 h
      obtain ⟨hdigit, rfl⟩ := digitValue?_ten.1 hc
      exact ⟨List.forall_mem_append.2 ⟨hdigits, List.forall_mem_singleton.2 hdigit⟩, rfl⟩
    · rintro ⟨hdigits, rfl⟩
      exact ⟨_, _, ih.2 ⟨fun c hc => hdigits c (List.mem_append_left _ hc), rfl⟩,
        digitValue?_ten.2 ⟨hdigits c (by simp), rfl⟩, rfl⟩

/-! ## Signs and exponents -/

theorem splitSign_signed {rest : List Char} (h : splitSign cs = (negative, rest)) :
    ∃ sign, Signed sign negative ∧ cs = sign ++ rest := by
  unfold splitSign at h
  split at h
  · cases h
    exact ⟨_, .minus, rfl⟩
  · cases h
    exact ⟨_, .plus, rfl⟩
  · cases h
    exact ⟨_, .none, rfl⟩

/-- A sign is split off what has none. -/
theorem Signed.splitSign {sign : List Char} (h : Signed sign negative)
    (hcs : splitSign cs = (false, cs)) : splitSign (sign ++ cs) = (negative, cs) := by
  cases h with
  | none => exact hcs
  | plus => rfl
  | minus => rfl

theorem splitSign_digits (hne : ds ≠ []) (hdigits : ∀ c ∈ ds, c.isDigit = true) (cs : List Char) :
    splitSign (ds ++ cs) = (false, ds ++ cs) := by
  obtain ⟨c, ds, rfl⟩ := List.exists_cons_of_ne_nil hne
  exact splitSign_of_isDigit (hdigits c List.mem_cons_self) _

theorem readExponent?_iff : readExponent? es = some e ↔ Exponent es e := by
  constructor
  · intro h
    unfold readExponent? at h
    split at h
    next =>
      cases h
      exact .none
    next mark rest =>
      split at h
      next hmark =>
        generalize hsplit : splitSign rest = signed at h
        obtain ⟨negative, ds⟩ := signed
        obtain ⟨sign, hsign, rfl⟩ := splitSign_signed hsplit
        by_cases hdigits : ds ≠ [] ∧ ∀ c ∈ ds, c.isDigit = true
        · have hread : (ds.isEmpty || !ds.all Char.isDigit) = false := by
            simpa using hdigits
          simp only [hread, Bool.false_eq_true, if_false] at h
          cases h
          exact .some hmark hsign hdigits.1 (digits_ten_iff.2 ⟨hdigits.2, rfl⟩)
        · have hread : (ds.isEmpty || !ds.all Char.isDigit) = true := by
            rw [← Bool.not_eq_false]
            exact fun h => hdigits (by simpa using h)
          simp only [hread, if_true] at h
          cases h
      next => cases h
  · intro h
    cases h with
    | none => rfl
    | @some mark sign ds negative n hmark hsign hne h =>
      obtain ⟨hdigits, rfl⟩ := digits_ten_iff.1 h
      have hunsigned := splitSign_digits hne hdigits []
      rw [List.append_nil] at hunsigned
      have hsplit := hsign.splitSign hunsigned
      have hread : (ds.isEmpty || !ds.all Char.isDigit) = false := by
        simpa using ⟨hne, hdigits⟩
      unfold readExponent?
      dsimp only
      rw [if_pos hmark, hsplit]
      simp only [hread, Bool.false_eq_true, if_false]

/-- An exponent does not go on with the digits or the point before it. -/
theorem Exponent.head_ne (h : Exponent es e) :
    ∀ c ∈ es.head?, c.isDigit = false ∧ c ≠ '.' := by
  cases h with
  | none => simp
  | some hmark =>
    intro c hc
    obtain rfl := Option.some.inj hc
    rcases hmark with rfl | rfl <;> decide

/-! ## Plain decimal text -/

theorem spanDigits_eq (cs : List Char) : cs = (spanDigits cs).1 ++ (spanDigits cs).2 ∧
    ∀ c ∈ (spanDigits cs).1, c.isDigit = true :=
  ⟨List.takeWhile_append_dropWhile.symm, fun _ hc => List.mem_takeWhile_imp hc⟩

/-- What stands before the rest of a text: digits, and after a point perhaps more of them. -/
theorem spanFraction_eq (h : spanFraction cs = (ds, fs, es)) :
    (cs = ds ++ es ∧ fs = [] ∨ cs = ds ++ '.' :: fs ++ es) ∧ ∀ c ∈ ds ++ fs, c.isDigit = true := by
  obtain ⟨hcs, hds⟩ := spanDigits_eq cs
  unfold spanFraction at h
  generalize spanDigits cs = span at hcs hds h
  obtain ⟨whole, rest⟩ := span
  dsimp only at hcs hds h
  subst hcs
  split at h
  next rest =>
    obtain ⟨hrest, hfs⟩ := spanDigits_eq rest
    cases h
    refine ⟨.inr ?_, List.forall_mem_append.2 ⟨hds, hfs⟩⟩
    rw [List.append_assoc, List.cons_append, ← hrest]
  next =>
    cases h
    exact ⟨.inl ⟨rfl, rfl⟩, by rwa [List.append_nil]⟩

/-- What is read without a sign has a mantissa and an exponent. -/
theorem written_of_readUnsigned? {d : Decimal} (h : readUnsigned? negative cs = some d) :
    d.negative = negative ∧ ∃ ms es v e, cs = ms ++ es ∧ Mantissa ms v ∧ Exponent es e ∧
      d.coefficient * 10 ^ d.exponent = v * 10 ^ e := by
  unfold readUnsigned? at h
  generalize hspan : spanFraction cs = span at h
  obtain ⟨ds, fs, es⟩ := span
  dsimp only at h
  split at h
  next => cases h
  next hne =>
    obtain ⟨e, he, rfl⟩ := Option.map_eq_some_iff.1 h
    obtain ⟨hcs, hdigits⟩ := spanFraction_eq hspan
    have hdigits := digits_ten_iff.2 ⟨hdigits, rfl⟩
    have hne : ds ≠ [] ∨ fs ≠ [] := by
      rw [← not_and_or]
      simpa using hne
    have he := readExponent?_iff.1 he
    rcases hcs with ⟨rfl, rfl⟩ | rfl
    · rw [List.append_nil] at hdigits
      exact ⟨rfl, ds, es, _, e, rfl, .whole (hne.resolve_right (by simp)) hdigits, he, by simp⟩
    · refine ⟨rfl, _, es, _, e, rfl, .point hne hdigits, he, ?_⟩
      rw [mul_assoc, ← zpow_add₀ (by norm_num), neg_add_eq_sub]

/-- A mantissa with an exponent is read, as its number. -/
theorem readUnsigned?_of_written {ms : List Char} (negative : Bool) (hm : Mantissa ms v)
    (he : Exponent es e) :
    ∃ d, readUnsigned? negative (ms ++ es) = some d ∧ d.negative = negative ∧
      d.coefficient * 10 ^ d.exponent = v * 10 ^ e := by
  have hread := readExponent?_iff.2 he
  have hhead := he.head_ne
  unfold readUnsigned?
  cases hm with
  | whole hne h =>
    obtain ⟨hdigits, rfl⟩ := digits_ten_iff.1 h
    rw [spanFraction_whole hdigits hhead]
    exact ⟨⟨negative, natOfDigits ms, e⟩, by simp [hne, hread], rfl, rfl⟩
  | @point ds fs n hne h =>
    obtain ⟨hdigits, rfl⟩ := digits_ten_iff.1 h
    obtain ⟨hds, hfs⟩ := List.forall_mem_append.1 hdigits
    have hsome : (ds.isEmpty && fs.isEmpty) = false := by
      rcases hne with hne | hne <;> simp [hne]
    rw [spanFraction_point hds hfs fun c hc => (hhead c hc).1]
    refine ⟨⟨negative, natOfDigits (ds ++ fs), e - fs.length⟩, by simp [hsome, hread], rfl, ?_⟩
    rw [mul_assoc, ← zpow_add₀ (by norm_num), neg_add_eq_sub]

/-! ## Whole texts -/

theorem mem_radixMarks {mark : Char} : (mark, radix) ∈ radixMarks ↔
    (mark = 'x' ∨ mark = 'X') ∧ radix = 16 ∨ (mark = 'o' ∨ mark = 'O') ∧ radix = 8 ∨
      (mark = 'b' ∨ mark = 'B') ∧ radix = 2 := by
  simp [radixMarks]
  tauto

theorem radixMark?_iff : radixMark? cs = some (radix, ds) ↔
    ∃ mark, (mark, radix) ∈ radixMarks ∧ cs = '0' :: mark :: ds := by
  simp only [mem_radixMarks]
  constructor
  · intro h
    unfold radixMark? at h
    split at h
    next mark rest =>
      split at h
      next hmark =>
        cases h
        exact ⟨mark, .inl ⟨hmark, rfl⟩, rfl⟩
      next =>
        split at h
        next hmark =>
          cases h
          exact ⟨mark, .inr (.inl ⟨hmark, rfl⟩), rfl⟩
        next =>
          split at h
          next hmark =>
            cases h
            exact ⟨mark, .inr (.inr ⟨hmark, rfl⟩), rfl⟩
          next => cases h
    next => cases h
  · rintro ⟨mark, ⟨rfl | rfl, rfl⟩ | ⟨rfl | rfl, rfl⟩ | ⟨rfl | rfl, rfl⟩, rfl⟩ <;> rfl

/-- A zero with a radix mark is no decimal text. -/
theorem readUnsigned?_mark {mark : Char} (hmark : (mark, radix) ∈ radixMarks) :
    readUnsigned? negative ('0' :: mark :: ds) = none := by
  obtain ⟨rfl | rfl, -⟩ | ⟨rfl | rfl, -⟩ | ⟨rfl | rfl, -⟩ := mem_radixMarks.1 hmark <;> rfl

/-- Decimal text is nothing of the kinds that are told apart before it. -/
theorem coerceTrimmed_of_read? {d : Decimal} (h : read? cs = some d) :
    coerceTrimmed cs = d.toFloat := by
  have hread := h
  unfold read? at hread
  unfold coerceTrimmed
  generalize hsplit : splitSign cs = signed at hread
  obtain ⟨negative, unsigned⟩ := signed
  dsimp only at hread ⊢
  have hne : cs.isEmpty = false := by
    cases cs with
    | nil =>
      cases hsplit
      cases hread
    | cons => rfl
  have hword : unsigned ≠ infinityWord := by
    rintro rfl
    have hnone : ∀ negative, readUnsigned? negative infinityWord = none := by decide
    rw [hnone] at hread
    cases hread
  have hmark : radixMark? unsigned = none := by
    cases hfound : radixMark? unsigned with
    | none => rfl
    | some found =>
      obtain ⟨mark, hmark, rfl⟩ := radixMark?_iff.1 hfound
      rw [readUnsigned?_mark hmark] at hread
      cases hread
  rw [hne, if_neg Bool.false_ne_true, if_neg hword, hmark]
  dsimp only
  rw [h]

/-- The digits after a radix mark are read in 64 bits. -/
theorem coerceTrimmed_mark {mark : Char} (hmark : (mark, radix) ∈ radixMarks) (ds : List Char) :
    coerceTrimmed ('0' :: mark :: ds) = coerceRadix radix ds := by
  have hfound : radixMark? ('0' :: mark :: ds) = some (radix, ds) :=
    radixMark?_iff.2 ⟨mark, hmark, rfl⟩
  have hsplit : splitSign ('0' :: mark :: ds) = (false, '0' :: mark :: ds) :=
    splitSign_of_isDigit rfl _
  have hword : '0' :: mark :: ds ≠ infinityWord := by
    intro heq
    have hhead : some '0' = infinityWord.head? := congrArg List.head? heq
    exact absurd hhead (by decide)
  unfold coerceTrimmed
  rw [hsplit]
  dsimp only
  rw [List.isEmpty_cons, if_neg Bool.false_ne_true, if_neg hword, hfound]
  dsimp only
  rw [if_pos rfl]

theorem coerceRadix_of_le (h : ds ≠ [] ∧ Digits radix ds n) (hle : n ≤ maxNat64) :
    coerceRadix radix ds = ofNat n := by
  rw [coerceRadix, natOfRadix?_iff.2 h]
  exact if_pos hle

/-- Digits that are read with a radix are there, and they fit. -/
theorem of_coerceRadix (h : (coerceRadix radix ds).isNaN = false) :
    ∃ n, ds ≠ [] ∧ Digits radix ds n ∧ n ≤ maxNat64 := by
  unfold coerceRadix at h
  split at h
  next n hn =>
    split at h
    next hle =>
      obtain ⟨hne, hdigits⟩ := natOfRadix?_iff.1 hn
      exact ⟨n, hne, hdigits, hle⟩
    next => exact absurd h (by decide)
  next => exact absurd h (by decide)

/-- A whole number of 64 bits is its numeral. -/
theorem ofNat_eq_magnitude (h : n < 2 ^ 64) : ofNat n = magnitude n 0 := by
  have hcount : digitCount n ≤ 20 :=
    (Nat.length_toDigits_le_iff (by decide) (by decide)).2 (h.trans (by decide))
  unfold magnitude
  dsimp only
  split
  next hzero =>
    subst hzero
    rfl
  next =>
    rw [if_neg (by omega), if_neg (by omega)]
    rfl

theorem Mantissa.splitSign {ms : List Char} (h : Mantissa ms v) (es : List Char) :
    splitSign (ms ++ es) = (false, ms ++ es) := by
  cases h with
  | whole hne h => exact splitSign_digits hne (digits_ten_iff.1 h).1 es
  | @point ds fs n hne h =>
    obtain ⟨hds, -⟩ := List.forall_mem_append.1 (digits_ten_iff.1 h).1
    rw [List.append_assoc]
    cases ds with
    | nil => rfl
    | cons c ds => exact splitSign_digits (List.cons_ne_nil c ds) hds _

/-- The double that a magnitude is read as: it is rounded, and infinity is infinity. -/
def IsDoubleOf : Option Rat → Float → Prop
  | some v, x => RoundsTo v x
  | none, x => x = infinity

/-- A text of the grammar is read as its number, rounded to a double. -/
theorem coerceTrimmed_of_written {v : Option Rat} (h : Written cs negative v)
    (hfits : ¬ Overlong cs) :
    ∃ x, IsDoubleOf v x ∧ coerceTrimmed cs = if negative then -x else x := by
  cases h with
  | blank => exact ⟨0.0, roundsTo_zero (le_refl 0) (two_zpow_pos _).le, rfl⟩
  | infinity hsign =>
    refine ⟨infinity, rfl, ?_⟩
    cases hsign <;> rfl
  | @radix mark radix n ds hmark hne h =>
    have hlt : n < 2 ^ 64 := not_le.1 fun hle => hfits ⟨mark, radix, ds, n, hmark, rfl, h, hle⟩
    have hrounds := magnitude_roundsTo n 0
    rw [zpow_zero, mul_one] at hrounds
    refine ⟨magnitude n 0, hrounds, ?_⟩
    rw [coerceTrimmed_mark hmark, coerceRadix_of_le ⟨hne, h⟩ (Nat.le_of_lt_succ hlt),
      if_neg Bool.false_ne_true, ofNat_eq_magnitude hlt]
  | @decimal sign ms es negative v e hsign hmantissa hexponent =>
    obtain ⟨d, hd, rfl, hvalue⟩ := readUnsigned?_of_written negative hmantissa hexponent
    have hread : read? (sign ++ ms ++ es) = some d := by
      unfold read?
      rw [List.append_assoc, hsign.splitSign (hmantissa.splitSign es)]
      exact hd
    refine ⟨magnitude d.coefficient d.exponent, ?_, coerceTrimmed_of_read? hread⟩
    rw [← hvalue]
    exact magnitude_roundsTo _ _

theorem Digits.unique {m : Nat} (hm : Digits radix ds m) (hn : Digits radix ds n) : m = n :=
  Option.some.inj ((foldlM_eq_some_iff.2 hm).symm.trans (foldlM_eq_some_iff.2 hn))

theorem Overlong.isNaN (h : Overlong cs) : (coerceTrimmed cs).isNaN = true := by
  obtain ⟨mark, radix, ds, n, hmark, rfl, hdigits, hle⟩ := h
  rw [coerceTrimmed_mark hmark, ← Bool.not_eq_false]
  intro hread
  obtain ⟨m, -, hm, hfits⟩ := of_coerceRadix hread
  obtain rfl := hm.unique hdigits
  exact absurd (Nat.lt_succ_of_le hfits) (not_lt.2 hle)

/-- What is read as a number is a text of the grammar. -/
theorem written_of_coerceTrimmed (h : (coerceTrimmed cs).isNaN = false) :
    ∃ negative v, Written cs negative v := by
  unfold coerceTrimmed at h
  split at h
  next hempty =>
    obtain rfl := List.isEmpty_iff.1 hempty
    exact ⟨_, _, .blank⟩
  generalize hsplit : splitSign cs = signed at h
  obtain ⟨negative, unsigned⟩ := signed
  obtain ⟨sign, hsign, rfl⟩ := splitSign_signed hsplit
  dsimp only at h
  split at h
  next hword =>
    rw [hword]
    exact ⟨_, _, .infinity hsign⟩
  split at h
  next radix ds hfound =>
    obtain ⟨mark, hmark, rfl⟩ := radixMark?_iff.1 hfound
    split at h
    next hlength =>
      -- with nothing in front of the mark, there is no sign
      obtain rfl : sign = [] := by
        rw [List.length_append] at hlength
        exact List.eq_nil_of_length_eq_zero (by omega)
      obtain ⟨n, hne, hdigits, -⟩ := of_coerceRadix h
      exact ⟨_, _, .radix hmark hne hdigits⟩
    next => exact absurd h (by decide)
  next =>
    split at h
    next d hread =>
      unfold read? at hread
      rw [hsplit] at hread
      obtain ⟨-, ms, es, v, e, rfl, hmantissa, hexponent, -⟩ := written_of_readUnsigned? hread
      rw [← List.append_assoc]
      exact ⟨_, _, .decimal hsign hmantissa hexponent⟩
    next => exact absurd h (by decide)

theorem IsDoubleOf.unique {v : Option Rat} {x y : Float} (hx : IsDoubleOf v x)
    (hy : IsDoubleOf v y) : x = y := by
  cases v with
  | none => exact Eq.trans hx (Eq.symm hy)
  | some v => exact RoundsTo.unique hx hy

theorem IsDoubleOf.isNaN {v : Option Rat} {x : Float} (h : IsDoubleOf v x) : x.isNaN = false := by
  cases v with
  | none =>
    rw [show x = infinity from h]
    decide
  | some v =>
    cases (show RoundsTo v x from h) with
    | infinite _ hx =>
      rw [hx]
      decide
    | finite m q _ hx => exact isNaN_of_ofFloat (by simp [hx])

end Number

namespace Value

open Number

/-- A text is read as a number exactly if it is of the grammar, white space around it aside, and the
    digits of a radix fit in 64 bits; it is read as the number that it spells, rounded to a
    double. -/
theorem toFloat_string (s : String) :
    ((string s).toFloat.isNaN = false ↔
      (∃ negative v, Written (Text.trim s.toList) negative v) ∧
        ¬ Overlong (Text.trim s.toList)) ∧
    ∀ negative v, Written (Text.trim s.toList) negative v → ¬ Overlong (Text.trim s.toList) →
      ∃ x, (∀ y, IsDoubleOf v y ↔ y = x) ∧
        (string s).toFloat = if negative then -x else x := by
  show ((coerceTrimmed (Text.trim s.toList)).isNaN = false ↔ _) ∧ ∀ negative v, _ → _ →
    ∃ x, _ ∧ coerceTrimmed (Text.trim s.toList) = _
  generalize Text.trim s.toList = cs
  refine ⟨⟨fun h => ⟨written_of_coerceTrimmed h, fun hlong => ?_⟩, ?_⟩,
    fun negative v hwritten hfits => ?_⟩
  · rw [hlong.isNaN] at h
    cases h
  · rintro ⟨⟨negative, v, hwritten⟩, hfits⟩
    obtain ⟨x, hx, hread⟩ := coerceTrimmed_of_written hwritten hfits
    rw [hread]
    cases negative with
    | false => exact hx.isNaN
    | true => exact (isNaN_neg x).trans hx.isNaN
  · obtain ⟨x, hx, hread⟩ := coerceTrimmed_of_written hwritten hfits
    refine ⟨x, fun y => ⟨fun hy => hy.unique hx, ?_⟩, hread⟩
    rintro rfl
    exact hx

/-- The greatest hexadecimal number of 64 bits is read, and rounded to `2^64`; the text of `2^64`
    itself has a digit too many. -/
theorem toFloat_string_widths :
    (∃ x, RoundsTo 18446744073709551615 x ∧ (string " 0xFFFFFFFFFFFFFFFF ").toFloat = x) ∧
    Written "0x10000000000000000".toList false (some 18446744073709551616) ∧
    ¬ (string "0x10000000000000000").toFloat.isNaN = false := by
  have hmark : ('x', 16) ∈ radixMarks := List.mem_cons_self
  obtain ⟨hsome, hdigits⟩ := natOfRadix?_iff.1 (by decide +kernel :
    natOfRadix? 16 "FFFFFFFFFFFFFFFF".toList = some 18446744073709551615)
  have hgreatest : Written "0xFFFFFFFFFFFFFFFF".toList false (some 18446744073709551615) :=
    .radix hmark hsome hdigits
  obtain ⟨hsome, hdigits⟩ := natOfRadix?_iff.1 (by decide +kernel :
    natOfRadix? 16 "10000000000000000".toList = some 18446744073709551616)
  have hlong : Written "0x10000000000000000".toList false (some 18446744073709551616) :=
    .radix hmark hsome hdigits
  have hfits : ¬ Overlong "0xFFFFFFFFFFFFFFFF".toList := mt Overlong.isNaN (by decide +kernel)
  refine ⟨?_, hlong, fun h => ((toFloat_string _).1.1 h).2 ?_⟩
  · have htrim : Text.trim " 0xFFFFFFFFFFFFFFFF ".toList = "0xFFFFFFFFFFFFFFFF".toList := by
      decide +kernel
    rw [← htrim] at hgreatest hfits
    obtain ⟨x, hx, hread⟩ := (toFloat_string _).2 false _ hgreatest hfits
    exact ⟨x, (hx x).2 rfl, hread⟩
  · rw [show Text.trim "0x10000000000000000".toList = "0x10000000000000000".toList by
      decide +kernel]
    exact ⟨'x', 16, _, _, hmark, rfl, hdigits, by decide⟩

end Value

end ColumnQuery
