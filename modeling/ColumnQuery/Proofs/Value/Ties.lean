/-
  Values that are tied and values that are the same.

  Equality of values is an equivalence and their order a total preorder, in which the invalid values
  are tied and come last (`same_and_order_lawful`). Sorting and grouping ask different ones of the
  two, and they agree about most values but not about all: the order takes null and not-a-number,
  and any two objects of as many entries, for one (`Conflated`), and tells the two zeros apart
  (`Separated`). Nothing else makes a difference (`agree_iff`): tied values that are not the same
  have a conflated pair at some place, within arrays of arrays (`Meet`), and values that are the
  same without being tied have a separated pair at some place.
-/
import Mathlib.Data.List.Forall2
import ColumnQuery.Proofs.Number.Same
import ColumnQuery.Proofs.Value.Order
import ColumnQuery.Proofs.Value.Same

namespace ColumnQuery

namespace Value

/-! ## Valid values -/

theorem isValid_eq_false_iff {v : Value} :
    v.isValid = false ↔ v = null ∨ ∃ x : Float, x.isNaN = true ∧ v = number x := by
  cases v <;> simp [isValid]

theorem isValid_of_same {x y : Value} (h : x.same y = true) : x.isValid = y.isValid := by
  cases x <;> cases y <;> first | rfl | cases h | exact congrArg (!·) (Number.isNaN_of_same h)

theorem order_of_invalid {a b : Value} (ha : a.isValid = false) (hb : b.isValid = false) :
    a.order b = .eq := by
  unfold order
  rw [ha, hb]

theorem order_of_invalid_left {a b : Value} (ha : a.isValid = false) (hb : b.isValid = true) :
    a.order b = .gt := by
  unfold order
  rw [ha, hb]

theorem order_of_invalid_right {a b : Value} (ha : a.isValid = true) (hb : b.isValid = false) :
    a.order b = .lt := by
  unfold order
  rw [ha, hb]

/-- Tied values are both valid or both invalid. -/
theorem isValid_of_tied {a b : Value} (h : a.order b = .eq) : a.isValid = b.isValid := by
  cases ha : a.isValid <;> cases hb : b.isValid
  · rfl
  · rw [order_of_invalid_left ha hb] at h
    cases h
  · rw [order_of_invalid_right ha hb] at h
    cases h
  · rfl

/-! ## The laws -/

/-- Equality is an equivalence, the order a total preorder, and null and not-a-number are tied
    behind all valid values. -/
theorem same_and_order_lawful :
    (Equivalence fun a b : Value => a.same b = true) ∧
    (∀ a : Value, a.order a = .eq) ∧
    (∀ a b : Value, b.order a = (a.order b).swap) ∧
    (∀ a b c : Value, (a.order b).isLE = true → (b.order c).isLE = true →
      (a.order c).isLE = true) ∧
    (∀ a : Value, a.isValid = false ↔ a = null ∨ ∃ x : Float, x.isNaN = true ∧ a = number x) ∧
    (∀ a b : Value, a.isValid = false → b.isValid = false → a.order b = .eq) ∧
    (∀ a b : Value, a.isValid = false → b.isValid = true → a.order b = .gt) :=
  ⟨setoid.iseqv, fun _ => Std.ReflCmp.compare_self, fun _ _ => Std.OrientedCmp.eq_swap,
    fun _ _ _ => Std.TransCmp.isLE_trans, fun _ => isValid_eq_false_iff,
    fun _ _ => order_of_invalid, fun _ _ => order_of_invalid_left⟩

/-- Invalid items are tied, so that the lengths of the arrays decide. -/
theorem same_and_order_lawful_invalid_items :
    let a := array [number (-0.0), null]
    let b := array [number (-0.0), number Number.notANumber]
    let c := array [number (-0.0), null, array [boolean false]]
    (a.order b).isLE = true ∧ (b.order c).isLE = true ∧ (a.order c).isLE = true ∧
      null.order (number Number.notANumber) = .eq ∧ null.order c = .gt := by
  intro a b c
  obtain ⟨-, -, -, htrans, -, hinvalid, hlast⟩ := same_and_order_lawful
  have hab : (a.order b).isLE = true := by decide +kernel
  have hbc : (b.order c).isLE = true := by decide +kernel
  exact ⟨hab, hbc, htrans a b c hab hbc, hinvalid _ _ rfl (by decide +kernel), hlast _ _ rfl rfl⟩

/-! ## Where equality and order differ -/

/-- A pair of values at one place of two values is in relation: they are the two values
    themselves, or stand in arrays at equal positions. -/
inductive Meet (R : Value → Value → Prop) : Value → Value → Prop
  | here {a b : Value} (h : R a b) : Meet R a b
  | inside {as bs : List Value} {a b : Value} (i : Nat) (ha : as[i]? = some a)
      (hb : bs[i]? = some b) (h : Meet R a b) : Meet R (array as) (array bs)

/-- The order takes the two for one, and equality does not. -/
inductive Conflated : Value → Value → Prop
  | null_number {x : Float} (h : x.isNaN = true) : Conflated null (number x)
  | number_null {x : Float} (h : x.isNaN = true) : Conflated (number x) null
  | objects {es fs : List (String × Value)} (hlength : es.length = fs.length)
      (h : sameEntries es fs = false) : Conflated (object es) (object fs)

/-- Equality takes the two for one, and the order does not. -/
inductive Separated : Value → Value → Prop
  | zero_neg : Separated (number 0.0) (number (-0.0))
  | neg_zero : Separated (number (-0.0)) (number 0.0)

variable {a b : Value} {as bs : List Value}

/-- What a tie can be. -/
theorem tied_cases (h : a.order b = .eq) :
    (a.isValid = false ∧ b.isValid = false) ∨ a = b ∨
      (∃ es fs, a = object es ∧ b = object fs ∧ es.length = fs.length) ∨
      ∃ as bs, a = array as ∧ b = array bs ∧ orderItems as bs = .eq := by
  cases hb : b.isValid with
  | false => exact .inl ⟨(isValid_of_tied h).trans hb, rfl⟩
  | true =>
    have ha := (isValid_of_tied h).trans hb
    refine .inr ?_
    unfold order at h
    rw [ha, hb] at h
    cases a <;> cases b
    all_goals simp_all [typeRank, Number.order_eq_eq_iff]

/-- What values that are the same can be. -/
theorem same_cases (h : a.same b = true) :
    a = b ∨ Separated a b ∨ (∃ es fs, a = object es ∧ b = object fs ∧ sameEntries es fs = true) ∨
      ∃ as bs, a = array as ∧ b = array bs ∧ sameItems as bs = true := by
  cases a <;> cases b
  case number.number x y =>
    rcases Number.same_iff.1 h with rfl | ⟨rfl | rfl, rfl | rfl⟩
    · exact .inl rfl
    · exact .inl rfl
    · exact .inr (.inl .zero_neg)
    · exact .inr (.inl .neg_zero)
    · exact .inl rfl
  all_goals simp_all [same]

theorem length_eq_of_sameEntries : ∀ {es fs : List (String × Value)},
    sameEntries es fs = true → es.length = fs.length
  | [], [], _ => rfl
  | [], _ :: _, h => by cases h
  | _ :: _, [], h => by cases h
  | (k, a) :: es, (l, b) :: fs, h => by
    rw [sameEntries, Bool.and_eq_true] at h
    exact congrArg (· + 1) (length_eq_of_sameEntries h.2)

/-! ## Items -/

theorem sameItems_iff_forall₂ {k l : List Value} :
    sameItems k l = true ↔ List.Forall₂ (fun x y => x.same y = true) k l := by
  induction k generalizing l with
  | nil => cases l <;> simp [sameItems]
  | cons x k ih => cases l <;> simp [sameItems, ih]

theorem orderItems_eq_eq_iff {k l : List Value} :
    orderItems k l = .eq ↔ List.Forall₂ (fun x y => x.order y = .eq) k l := by
  induction k generalizing l with
  | nil => cases l <;> simp [orderItems]
  | cons x k ih =>
    cases l with
    | nil => simp [orderItems]
    | cons y l =>
      rw [orderItems, List.forall₂_cons, ← ih]
      cases x.order y <;> simp

/-- Where one relation holds at all positions and another one does not, there is a position at which
    the two differ. -/
theorem exists_getElem?_of_forall₂ {R S : Value → Value → Prop} (h : List.Forall₂ R as bs)
    (hnot : ¬ List.Forall₂ S as bs) :
    ∃ (i : Nat) (a b : Value), as[i]? = some a ∧ bs[i]? = some b ∧ R a b ∧ ¬ S a b := by
  induction h with
  | nil => exact absurd .nil hnot
  | @cons a b as bs hab hrest ih =>
    by_cases hs : S a b
    · obtain ⟨i, x, y, hx, hy, h⟩ := ih fun hrest => hnot (.cons hs hrest)
      exact ⟨i + 1, x, y, by simpa using hx, by simpa using hy, h⟩
    · exact ⟨0, a, b, rfl, rfl, hab, hs⟩

theorem forall₂_getElem? {R : Value → Value → Prop} (h : List.Forall₂ R as bs) {i : Nat}
    (ha : as[i]? = some a) (hb : bs[i]? = some b) : R a b := by
  obtain ⟨hi, rfl⟩ := List.getElem?_eq_some_iff.1 ha
  obtain ⟨hj, rfl⟩ := List.getElem?_eq_some_iff.1 hb
  exact h.get hi hj

theorem sizeOf_lt_of_item {i : Nat} (h : as[i]? = some a) : sizeOf a < sizeOf (array as) := by
  have hlt : sizeOf a < sizeOf as := List.sizeOf_lt_of_mem (List.mem_of_getElem? h)
  simp only [array.sizeOf_spec]
  omega

/-! ## Where the two agree -/

/-- Values with a conflated pair are not the same. -/
theorem same_of_meet_conflated (h : Meet Conflated a b) : a.same b = false := by
  induction h with
  | here h => cases h <;> simp_all [same]
  | inside i ha hb _ ih =>
    refine Bool.eq_false_iff.2 fun hsame => ?_
    rw [forall₂_getElem? (sameItems_iff_forall₂.1 hsame) ha hb] at ih
    cases ih

/-- Values with a separated pair are not tied. -/
theorem order_of_meet_separated (h : Meet Separated a b) : a.order b ≠ .eq := by
  induction h with
  | here h => cases h <;> decide +kernel
  | inside i ha hb _ ih =>
    intro htied
    simp only [order, isValid] at htied
    exact ih (forall₂_getElem? (orderItems_eq_eq_iff.1 htied) ha hb)

/-- Tied values that are not the same have a conflated pair. -/
theorem meet_conflated_of_tied {a b : Value} (htied : a.order b = .eq) (hsame : a.same b = false) :
    Meet Conflated a b := by
  rcases tied_cases htied with ⟨ha, hb⟩ | rfl | ⟨es, fs, rfl, rfl, hlength⟩ |
    ⟨as, bs, ha, hb, hitems⟩
  · rcases isValid_eq_false_iff.1 ha with rfl | ⟨x, hx, rfl⟩ <;>
      rcases isValid_eq_false_iff.1 hb with rfl | ⟨y, hy, rfl⟩
    · cases hsame
    · exact .here (.null_number hy)
    · exact .here (.number_null hx)
    · rw [Number.eq_notANumber hx, Number.eq_notANumber hy, same_refl] at hsame
      cases hsame
  · rw [same_refl] at hsame
    cases hsame
  · exact .here (.objects hlength hsame)
  · obtain ⟨i, x, y, hx, hy, hxy, hne⟩ := exists_getElem?_of_forall₂
      (orderItems_eq_eq_iff.1 hitems) fun h => by simp_all [same, sameItems_iff_forall₂.2 h]
    have hlt : sizeOf x < sizeOf a := ha ▸ sizeOf_lt_of_item hx
    rw [ha, hb]
    exact .inside i hx hy (meet_conflated_of_tied hxy (Bool.eq_false_iff.2 hne))
termination_by sizeOf a
decreasing_by exact hlt

/-- Values that are the same and not tied have a separated pair. -/
theorem meet_separated_of_same {a b : Value} (hsame : a.same b = true)
    (htied : a.order b ≠ .eq) :
    Meet Separated a b := by
  rcases same_cases hsame with rfl | h | ⟨es, fs, rfl, rfl, hentries⟩ | ⟨as, bs, ha, hb, hitems⟩
  · exact absurd Std.ReflCmp.compare_self htied
  · exact .here h
  · exact absurd (Nat.compare_eq_eq.2 (length_eq_of_sameEntries hentries)) htied
  · obtain ⟨i, x, y, hx, hy, hxy, hne⟩ := exists_getElem?_of_forall₂
      (sameItems_iff_forall₂.1 hitems) fun h => htied (ha ▸ hb ▸ orderItems_eq_eq_iff.2 h)
    have hlt : sizeOf x < sizeOf a := ha ▸ sizeOf_lt_of_item hx
    rw [ha, hb]
    exact .inside i hx hy (meet_separated_of_same hxy hne)
termination_by sizeOf a
decreasing_by exact hlt

/-- Order and equality agree about two values unless a conflated pair is all that makes them
    different, or a separated pair all that keeps them apart. -/
theorem agree_iff : (a.order b = .eq ↔ a.same b = true) ↔
    ¬ (a.order b = .eq ∧ Meet Conflated a b) ∧ ¬ (a.same b = true ∧ Meet Separated a b) := by
  constructor
  · intro h
    exact ⟨fun ⟨htied, hmeet⟩ => by simp_all [same_of_meet_conflated hmeet],
      fun ⟨hsame, hmeet⟩ => order_of_meet_separated hmeet (h.2 hsame)⟩
  · rintro ⟨hconflated, hseparated⟩
    constructor
    · intro htied
      by_contra hsame
      exact hconflated ⟨htied, meet_conflated_of_tied htied (Bool.eq_false_iff.2 hsame)⟩
    · intro hsame
      by_contra htied
      exact hseparated ⟨hsame, meet_separated_of_same hsame htied⟩

end Value

end ColumnQuery
