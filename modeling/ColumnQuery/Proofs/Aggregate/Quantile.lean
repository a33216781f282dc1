/-
  Quantiles and their data.

  A quantile is interpolated between two neighbours of the sorted numbers, and its position among
  them is the rounded product of `p` and the last index (`exists_position`). It stays within the
  data, and is one of the numbers where the position is whole, if the difference of its neighbours
  is a finite double (`StaysWithin`). If that difference is infinite, because a neighbour is or
  because the numbers are too far apart, the quantile is not-a-number or infinity, and this is
  within the data only between two positions below an infinity (`quantileOf_staysWithin_iff`).
-/
import ColumnQuery.Aggregate.State
import ColumnQuery.Proofs.Number.Interpolated

namespace ColumnQuery

open Number (value? infinity notANumber interpolated)

variable {values : List Value} {numbers : List Float} {p r x : Float} {k : Nat} {P : Rat}

/-- The numbers among values. -/
def numbersOf (values : List Value) : List Float :=
  (values.map Value.toFloat).filter fun x => !x.isNaN

/-- Numbers in the order of sort keys. -/
def ascending (numbers : List Float) : List Float :=
  numbers.mergeSort fun x y => (Number.order x y).isLE

/-- The `k`-th smallest of numbers, from zero. -/
def IsRanked (numbers : List Float) (k : Nat) (x : Float) : Prop :=
  ∃ sorted : List Float, sorted.Perm numbers ∧ sorted.Pairwise (· ≤ ·) ∧ sorted[k]? = some x

/-- A quantile is a number between the least and the greatest of the numbers. At a whole position
    it is the number there, and the median of an odd number of them is one of them. -/
structure StaysWithin (numbers : List Float) (p r : Float) : Prop where
  number : r.isNaN = false
  least : ∃ x ∈ numbers, x ≤ r
  greatest : ∃ x ∈ numbers, r ≤ x
  ranked : ∀ (t : Rat) (k : Nat), value? p = some t → (numbers.length - 1 : Nat) * t = k →
    ∃ x, IsRanked numbers k x ∧ (r == x) = true
  median : numbers.length % 2 = 1 → p = 0.5 → ∃ x ∈ numbers, (r == x) = true

/-! ## Sorted numbers -/

theorem isNaN_of_mem_numbersOf (h : x ∈ numbersOf values) : x.isNaN = false := by
  simpa using (List.mem_filter.1 h).2

theorem ascending_perm (numbers : List Float) : (ascending numbers).Perm numbers :=
  List.mergeSort_perm numbers _

theorem mem_of_ascending (h : (ascending numbers)[k]? = some x) : x ∈ numbers :=
  (ascending_perm numbers).mem_iff.1 (List.mem_of_getElem? h)

theorem length_ascending (numbers : List Float) : (ascending numbers).length = numbers.length :=
  (ascending_perm numbers).length_eq

/-- Sorted numbers are in ascending order. -/
theorem ascending_pairwise (h : ∀ x ∈ numbers, x.isNaN = false) :
    (ascending numbers).Pairwise (· ≤ ·) := by
  have hkeys : (ascending numbers).Pairwise fun x y => (Number.order x y).isLE = true := by
    refine List.pairwise_mergeSort ?_ ?_ numbers
    · intro x y z hxy hyz
      rw [Number.order_isLE_iff] at *
      exact Int.le_trans hxy hyz
    · intro x y
      rw [Bool.or_eq_true, Number.order_isLE_iff, Number.order_isLE_iff]
      exact Int.le_total _ _
  refine hkeys.imp_of_mem fun hx hy hle => ?_
  exact Number.le_of_order (h _ ((ascending_perm numbers).mem_iff.1 hx))
    (h _ ((ascending_perm numbers).mem_iff.1 hy)) hle

theorem ascending_of_pairwise
    (h : numbers.Pairwise fun x y => (Number.order x y).isLE = true) :
    ascending numbers = numbers := List.mergeSort_of_pairwise h

/-! ## The position -/

/-- Where a quantile stands among sorted numbers. -/
def positionOf (numbers : List Float) (p : Float) : Float :=
  Number.ofNat (numbers.length - 1) * p

/-- The index of the neighbour below. -/
def lowerOf (numbers : List Float) (p : Float) : Nat := Number.toNat64 (positionOf numbers p)

/-- How far the position is above its lower neighbour. -/
def weightOf (numbers : List Float) (p : Float) : Float :=
  positionOf numbers p - Number.ofNat (lowerOf numbers p)

/-- A double between zero and one is finite. -/
theorem exists_value_of_le (h : 0.0 ≤ p) (h' : p ≤ 1.0) :
    ∃ P, value? p = some P ∧ 0 ≤ P ∧ P ≤ 1 := by
  have hone : value? 1.0 = some 1 := by
    have hform : Binary64.ofFloat 1.0 = .finite false (2 ^ 52) (-52) := by decide +kernel
    rw [Number.value?_of_finite hform]
    norm_num
  have hnumber : p.isNaN = false := by
    rw [Number.le_iff_unpack] at h'
    show p.toModel.unpack.isNaN = false
    cases hu : p.toModel.unpack with
    | notANumber =>
      rw [hu] at h'
      cases h'
    | _ => rfl
  obtain ⟨P, hP⟩ | rfl | rfl := Number.finite_or_infinite hnumber
  · exact ⟨P, hP, (Number.le_iff Number.value?_zero hP).1 h, (Number.le_iff hP hone).1 h'⟩
  · exact absurd h' (Number.not_infinity_le hone)
  · exact absurd h (Number.not_le_neg_infinity Number.value?_zero)

/-- The number that a position stands for. It is exact where it is whole; its lower neighbour is its
    integer part, and the weight is what is left. -/
structure IsPosition (numbers : List Float) (p : Float) (H : Rat) : Prop where
  low : (lowerOf numbers p : Rat) ≤ H
  lt : H < lowerOf numbers p + 1
  most : lowerOf numbers p ≤ numbers.length - 1
  whole : ∀ (t : Rat) (k : Nat), value? p = some t → (numbers.length - 1 : Nat) * t = k → H = k
  weight : value? (weightOf numbers p) = some (H - lowerOf numbers p)

/-- As long as indices are doubles, the rounded position is not past the last one. -/
theorem exists_position (hlen : numbers.length ≤ 2 ^ 53) (hne : numbers ≠ [])
    (hp : value? p = some P) (h0 : 0 ≤ P) (h1 : P ≤ 1) : ∃ H, IsPosition numbers p H := by
  have hpos := List.length_pos_iff.2 hne
  generalize hN : numbers.length - 1 = N
  have hlast : value? (Number.ofNat N) = some (N : Rat) := Number.value?_ofNat (by omega)
  have hproduct := Number.mul_nearest hlast hp
  have hnonneg : (0 : Rat) ≤ N := Nat.cast_nonneg N
  obtain ⟨H, hH, -, hlow, hhigh⟩ := hproduct.between Number.value?_zero hlast
    (mul_nonneg hnonneg h0) (mul_le_of_le_one_right hnonneg h1)
  have hbound : (N : Rat) < 2 ^ 53 := by exact_mod_cast (by omega : N < 2 ^ 53)
  have hposition : positionOf numbers p = Number.ofNat N * p := by rw [positionOf, hN]
  rw [← hposition] at hH hproduct
  obtain ⟨hle, hlt, y, hy⟩ := Number.toNat64_spec hH hlow (by linarith)
  have hlower : lowerOf numbers p ≤ N := by exact_mod_cast hle.trans hhigh
  refine ⟨H, hle, hlt, hN.symm ▸ hlower, fun t k ht hk => ?_, ?_⟩
  · obtain rfl : P = t := Option.some.inj (hp.symm.trans ht)
    rw [hN] at hk
    have hkN : k ≤ N := by
      exact_mod_cast hk.symm.le.trans (mul_le_of_le_one_right hnonneg h1)
    have hexact := hproduct.exact (y := Number.ofNat k)
      (by rw [hk]; exact Number.value?_ofNat (by omega))
    rw [hH, hk] at hexact
    exact Option.some.inj hexact
  · exact (Number.sub_nearest hH (Number.value?_ofNat (by omega))).exact hy

/-- A whole position is its own lower neighbour. -/
theorem IsPosition.lower_eq (h : IsPosition numbers p k) : lowerOf numbers p = k := by
  have hlow : lowerOf numbers p ≤ k := by exact_mod_cast h.low
  have hlt : k < lowerOf numbers p + 1 := by exact_mod_cast h.lt
  omega

theorem IsPosition.weight_eq_zero_iff {H : Rat} (h : IsPosition numbers p H) :
    (weightOf numbers p == 0.0) = true ↔ H - lowerOf numbers p = 0 :=
  Number.beq_iff h.weight Number.value?_zero

/-! ## The neighbours -/

/-- The neighbours of a position, which are the same number at the last one. -/
theorem exists_neighbours (hnumbers : ∀ x ∈ numbers, x.isNaN = false) (hne : numbers ≠ [])
    (hk : k ≤ numbers.length - 1) :
    ∃ a b, (ascending numbers)[k]? = some a ∧
      (ascending numbers)[min (k + 1) (numbers.length - 1)]? = some b ∧ a ≤ b := by
  have hpos := List.length_pos_iff.2 hne
  have hlength := length_ascending numbers
  have hlow : k < (ascending numbers).length := by omega
  have hhigh : min (k + 1) (numbers.length - 1) < (ascending numbers).length := by omega
  refine ⟨_, _, List.getElem?_eq_getElem hlow, List.getElem?_eq_getElem hhigh, ?_⟩
  rcases Nat.lt_or_eq_of_le hk with hlt | heq
  · exact List.pairwise_iff_getElem.1 (ascending_pairwise hnumbers) _ _ hlow hhigh (by omega)
  · simp only [show min (k + 1) (numbers.length - 1) = k by omega]
    exact Number.le_refl_of_number
      (hnumbers _ ((ascending_perm numbers).mem_iff.1 (List.getElem_mem _)))

theorem quantileOf_eq {a b : Float} (hnumbers : numbersOf values = numbers) (hne : numbers ≠ [])
    (hp : 0.0 ≤ p) (hp' : p ≤ 1.0) (ha : (ascending numbers)[lowerOf numbers p]? = some a)
    (hb : (ascending numbers)[min (lowerOf numbers p + 1) (numbers.length - 1)]? = some b) :
    quantileOf values p = .number (interpolated a b (weightOf numbers p)) := by
  have hlength := length_ascending numbers
  have hsome : (ascending numbers).isEmpty = false := by
    rw [List.isEmpty_eq_false_iff, ← List.length_pos_iff, hlength]
    exact List.length_pos_iff.2 hne
  have hopen : quantileOf values p =
      if (ascending numbers).isEmpty || !(0.0 ≤ p && p ≤ 1.0) then .null
      else
        let h := Number.ofNat ((ascending numbers).length - 1) * p
        let low := Number.toNat64 h
        .number (interpolated ((ascending numbers)[low]?.getD 0.0)
          ((ascending numbers)[min (low + 1) ((ascending numbers).length - 1)]?.getD 0.0)
          (h - Number.ofNat low)) := by
    subst hnumbers
    rfl
  rw [hopen, hsome, decide_eq_true hp, decide_eq_true hp', hlength]
  show Value.number (interpolated ((ascending numbers)[lowerOf numbers p]?.getD 0.0)
    ((ascending numbers)[min (lowerOf numbers p + 1) (numbers.length - 1)]?.getD 0.0)
    (weightOf numbers p)) = _
  rw [ha, hb]
  rfl

/-! ## Within the data -/

theorem IsRanked.mem (h : IsRanked numbers k x) : x ∈ numbers := by
  obtain ⟨sorted, hperm, -, hx⟩ := h
  exact hperm.mem_iff.1 (List.mem_of_getElem? hx)

theorem value?_half : value? 0.5 = some (1 / 2) := by
  have hform : Binary64.ofFloat 0.5 = .finite false (2 ^ 52) (-53) := by decide +kernel
  rw [Number.value?_of_finite hform]
  norm_num

/-- The median of an odd number of numbers has a whole position. -/
theorem StaysWithin.of_ranked (hnumber : r.isNaN = false) (hleast : ∃ x ∈ numbers, x ≤ r)
    (hgreatest : ∃ x ∈ numbers, r ≤ x)
    (hranked : ∀ (t : Rat) (k : Nat), value? p = some t → (numbers.length - 1 : Nat) * t = k →
      ∃ x, IsRanked numbers k x ∧ (r == x) = true) : StaysWithin numbers p r := by
  refine ⟨hnumber, hleast, hgreatest, hranked, ?_⟩
  rintro hodd rfl
  obtain ⟨x, hx, heq⟩ := hranked (1 / 2) ((numbers.length - 1) / 2) value?_half (by
    obtain ⟨j, hj⟩ : ∃ j, numbers.length - 1 = 2 * j := ⟨(numbers.length - 1) / 2, by omega⟩
    rw [hj, Nat.mul_div_cancel_left j two_pos]
    push_cast
    ring)
  exact ⟨x, hx.mem, heq⟩

variable {a b : Float} {H : Rat}

/-- Between neighbours with a finite difference a quantile stays within its data. -/
theorem staysWithin_of_finite (hnumbers : ∀ x ∈ numbers, x.isNaN = false)
    (ha : (ascending numbers)[lowerOf numbers p]? = some a)
    (hb : (ascending numbers)[min (lowerOf numbers p + 1) (numbers.length - 1)]? = some b)
    (hle : a ≤ b) (hd : (b - a).isFinite = true) (hH : IsPosition numbers p H) :
    StaysWithin numbers p (interpolated a b (weightOf numbers p)) := by
  have hmem := mem_of_ascending ha
  have hmem' := mem_of_ascending hb
  obtain ⟨⟨A, hA⟩, B, hB⟩ :=
    Number.finite_of_difference (hnumbers a hmem) (hnumbers b hmem') hle hd
  obtain ⟨E, hE⟩ := Number.isFinite_iff.1 hd
  obtain ⟨R, hR, hAR, hRB, hzero⟩ := Number.interpolated_between hA hB ((Number.le_iff hA hB).1 hle)
    hE hH.weight (sub_nonneg.2 hH.low) (by linarith [hH.lt])
  refine .of_ranked (Number.isNaN_of_value? hR) ⟨a, hmem, (Number.le_iff hA hR).2 hAR⟩
    ⟨b, hmem', (Number.le_iff hR hB).2 hRB⟩ fun t k ht hk => ?_
  obtain rfl := hH.whole t k ht hk
  have hlower := hH.lower_eq
  refine ⟨a, ⟨_, ascending_perm numbers, ascending_pairwise hnumbers, hlower ▸ ha⟩, ?_⟩
  exact (Number.beq_iff hR hA).2 (hzero (by rw [hlower, sub_self]))

/-- Between two positions infinity is within the data if it is there. -/
theorem staysWithin_infinity_iff (hnumbers : ∀ x ∈ numbers, x.isNaN = false)
    (ha : a ∈ numbers) (hH : IsPosition numbers p H) (hbetween : H - lowerOf numbers p ≠ 0) :
    StaysWithin numbers p infinity ↔ infinity ∈ numbers := by
  constructor
  · intro h
    obtain ⟨x, hx, hle⟩ := h.greatest
    exact Number.eq_infinity_of_le (hnumbers x hx) hle ▸ hx
  · intro h
    refine .of_ranked (by rfl) ⟨a, ha, Number.le_infinity (hnumbers a ha)⟩
      ⟨infinity, h, Number.le_infinity (by rfl)⟩ fun t k ht hk => ?_
    obtain rfl := hH.whole t k ht hk
    exact absurd (by rw [hH.lower_eq, sub_self]) hbetween

/-- A quantile stays within its data if the difference of its neighbours is finite, and otherwise
    only if it stands between two positions above a finite double and infinity is there. It is
    infinity between two positions above a finite double, else not-a-number. -/
theorem quantileOf_staysWithin_iff (hnumbers : numbersOf values = numbers) (hne : numbers ≠ [])
    (hlen : numbers.length ≤ 2 ^ 53) (hp : 0.0 ≤ p) (hp' : p ≤ 1.0) :
    ∃ a b r, (ascending numbers)[lowerOf numbers p]? = some a ∧
      (ascending numbers)[min (lowerOf numbers p + 1) (numbers.length - 1)]? = some b ∧
      quantileOf values p = .number r ∧
      (StaysWithin numbers p r ↔ (b - a).isFinite = true ∨
        a.isFinite = true ∧ (weightOf numbers p == 0.0) = false ∧ infinity ∈ numbers) ∧
      ((b - a).isFinite = false →
        r = if a.isFinite && !(weightOf numbers p == 0.0) then infinity else notANumber) := by
  have hnumber : ∀ x ∈ numbers, x.isNaN = false := by
    subst hnumbers
    exact fun x => isNaN_of_mem_numbersOf
  obtain ⟨P, hP, h0, h1⟩ := exists_value_of_le hp hp'
  obtain ⟨H, hH⟩ := exists_position hlen hne hP h0 h1
  obtain ⟨a, b, ha, hb, hle⟩ := exists_neighbours hnumber hne hH.most
  have hmem := mem_of_ascending ha
  have hmem' := mem_of_ascending hb
  refine ⟨a, b, _, ha, hb, quantileOf_eq hnumbers hne hp hp' ha hb, ?_⟩
  have hlost : ∀ {x : Float}, x = notANumber → ¬ StaysWithin numbers p x := by
    rintro x rfl h
    exact absurd h.number (by decide)
  cases hd : (b - a).isFinite with
  | true => exact ⟨iff_of_true (staysWithin_of_finite hnumber ha hb hle hd hH) (.inl rfl), nofun⟩
  | false =>
    cases hfinite : a.isFinite with
    | false =>
      have hr := Number.interpolated_of_infinite (hnumber a hmem) hfinite (hnumber b hmem') hle
        hH.weight (sub_nonneg.2 hH.low)
      exact ⟨iff_of_false (hlost hr) (by simp), fun _ => hr⟩
    | true =>
      obtain ⟨A, hA⟩ := Number.isFinite_iff.1 hfinite
      obtain ⟨hbetween, hat⟩ :=
        Number.interpolated_of_overflow hA (hnumber b hmem') hle hd hH.weight
      cases hzero : weightOf numbers p == 0.0 with
      | true =>
        have hr := hat (hH.weight_eq_zero_iff.1 hzero)
        exact ⟨iff_of_false (hlost hr) (by simp), fun _ => hr⟩
      | false =>
        have hne : H - lowerOf numbers p ≠ 0 := fun h => by
          rw [hH.weight_eq_zero_iff.2 h] at hzero
          cases hzero
        have hr := hbetween (lt_of_le_of_ne (sub_nonneg.2 hH.low) hne.symm)
        refine ⟨?_, fun _ => hr⟩
        rw [hr, staysWithin_infinity_iff hnumber hmem hH hne]
        simp

/-- Between one and infinity a quantile is infinity, and at one it is not-a-number. -/
theorem quantileOf_one_infinity :
    numbersOf [.number 1.0, .number infinity] = [1.0, infinity] ∧
    (quantileOf [.number 1.0, .number infinity] 0.5 = .number infinity ∧
      StaysWithin [1.0, infinity] 0.5 infinity) ∧
    quantileOf [.number 1.0, .number infinity] 0.0 = .number notANumber ∧
      ¬ StaysWithin [1.0, infinity] 0.0 notANumber := by
  have hnumbers : numbersOf [.number 1.0, .number infinity] = [1.0, infinity] := by rfl
  have hsorted : ascending [1.0, infinity] = [1.0, infinity] := ascending_of_pairwise (by decide)
  refine ⟨hnumbers, ?_, ?_⟩
  · obtain ⟨a, b, r, ha, hb, hr, hiff, hlost⟩ := quantileOf_staysWithin_iff (p := 0.5) hnumbers
      (List.cons_ne_nil _ _) (by decide) (by decide) (by decide)
    rw [hsorted, show lowerOf [1.0, infinity] 0.5 = 0 by decide +kernel] at ha hb
    cases ha
    cases hb
    obtain rfl := (hlost (by decide)).trans (if_pos (by decide +kernel))
    exact ⟨hr, hiff.2 (.inr ⟨by decide, by decide +kernel, by simp⟩)⟩
  · obtain ⟨a, b, r, ha, hb, hr, hiff, hlost⟩ := quantileOf_staysWithin_iff (p := 0.0) hnumbers
      (List.cons_ne_nil _ _) (by decide) (by decide) (by decide)
    rw [hsorted, show lowerOf [1.0, infinity] 0.0 = 0 by decide +kernel] at ha hb
    cases ha
    cases hb
    obtain rfl := (hlost (by decide)).trans (if_neg (by decide +kernel))
    refine ⟨hr, fun h => (hiff.1 h).elim ?_ fun hinfinite => ?_⟩
    · exact fun hfinite => absurd hfinite (by decide)
    · exact absurd hinfinite.2.1 (by decide +kernel)

end ColumnQuery
