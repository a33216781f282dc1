/-
  Rows in order.

  Sorting is stable. Of rows that are listed as they stand in the table, the order and then the
  place in the table make a strict order (`Before`), and sorting puts them in it. So the rows that
  pass a test come in the same order whether they are sorted among all rows or by themselves
  (`sort_filter`), and rows that are copied in order stay as they stand (`sort_range_take?`).
-/
import ColumnQuery.Proofs.Overlay.RowOrder
import ColumnQuery.Proofs.Value.Order
import Mathlib.Data.List.Forall2
import Mathlib.Data.List.Sort

namespace ColumnQuery

/-! ## Sort keys compare by total preorders -/

namespace SortKey

/-- Values by which a sort key compares: invalid ones are all the same. -/
def leveled (v : Value) : Value := if v.isValid then v else .null

/-- The order of valid values in a direction. -/
def directed (descending : Bool) (x y : Value) : Ordering :=
  if descending then y.order x else x.order y

theorem compareValues_eq (descending : Bool) : compareValues descending =
    compareLex (compareOn fun v => !v.isValid)
      fun x y => directed descending (leveled x) (leveled y) := by
  funext x y
  unfold compareValues compareLex compareOn leveled directed
  have hnull : Value.null.order .null = .eq := by decide +kernel
  cases hx : x.isValid <;> cases hy : y.isValid <;> cases descending <;>
    simp [hx, hy, hnull] <;> rfl

instance transCmp_directed (descending : Bool) : Std.TransCmp (directed descending) := by
  cases descending with
  | false => exact inferInstanceAs (Std.TransCmp Value.order)
  | true => exact inferInstanceAs (Std.TransCmp fun a b => Value.order b a)

instance transCmp_compareValues (descending : Bool) : Std.TransCmp (compareValues descending) := by
  rw [compareValues_eq]
  have hvalues := Value.transCmp_on (directed descending) leveled
  infer_instance

instance transCmp_compare (k : SortKey) : Std.TransCmp k.compare :=
  Value.transCmp_on (compareValues k.descending) k.valueAt

end SortKey

namespace RowOrder

theorem transCmp_compareBy : ∀ keys : List SortKey, Std.TransCmp (compareBy keys)
  | [] =>
    { eq_swap := rfl
      isLE_trans := fun _ _ => rfl }
  | k :: ks => by
    have hrest := transCmp_compareBy ks
    have hcons : compareBy (k :: ks) = compareLex k.compare (compareBy ks) := rfl
    rw [hcons]
    infer_instance

instance transCmp_compare (o : RowOrder) : Std.TransCmp o.compare := transCmp_compareBy o.keys

theorem compare_swap (o : RowOrder) (a b : Nat) : o.compare b a = (o.compare a b).swap :=
  Std.OrientedCmp.eq_swap

/-! ## Rows sorted with others and by themselves -/

/-- The order, and the place in the table where it tells two rows not apart. -/
def Before (o : RowOrder) (a b : Nat) : Prop := o.compare a b = .lt ∨ o.compare a b = .eq ∧ a < b

theorem Before.asymm {o : RowOrder} {a b : Nat} (hab : o.Before a b) : ¬ o.Before b a := by
  intro hba
  unfold Before at hab hba
  rw [o.compare_swap a b] at hba
  rcases hab with hab | ⟨hab, hlt⟩
  · rw [hab] at hba
    simp at hba
  · rw [hab] at hba
    have hgt : b < a := by simpa using hba
    omega

theorem pair_sublist {rows : List Nat} (hrows : rows.Pairwise (· < ·)) {a b : Nat} (ha : a ∈ rows)
    (hb : b ∈ rows) (hab : a < b) : [a, b].Sublist rows := by
  induction rows with
  | nil => cases ha
  | cons row rest ih =>
    obtain ⟨hhead, htail⟩ := List.pairwise_cons.1 hrows
    rcases List.mem_cons.1 ha with rfl | har
    · have hrest : b ∈ rest := (List.mem_cons.1 hb).resolve_left (Nat.ne_of_gt hab)
      exact (List.singleton_sublist.2 hrest).cons_cons _
    · rcases List.mem_cons.1 hb with rfl | hbr
      · exact absurd (hhead a har) (by omega)
      · exact (ih htail har hbr).cons _

/-- Of two rows, one comes first in a list that has none twice. -/
theorem not_pair_sublist {rows : List Nat} (hrows : rows.Nodup) {a b : Nat}
    (hab : [a, b].Sublist rows) : ¬ [b, a].Sublist rows := by
  induction rows with
  | nil => cases hab
  | cons row rest ih =>
    obtain ⟨hrow, hrest⟩ := List.nodup_cons.1 hrows
    intro hba
    have hmem : ∀ {x y : Nat}, [x, y].Sublist rest → x ∈ rest ∧ y ∈ rest := fun h =>
      ⟨h.subset List.mem_cons_self, h.subset (by simp)⟩
    cases hab with
    | cons _ hab =>
      cases hba with
      | cons _ hba => exact ih hrest hab hba
      | cons_cons _ _ => exact hrow (hmem hab).2
    | cons_cons _ hb =>
      have hb : b ∈ rest := List.singleton_sublist.1 hb
      cases hba with
      | cons _ hba => exact hrow (hmem hba).2
      | cons_cons _ _ => exact hrow hb

/-- Rows listed as they stand in the table are sorted by the order and then by their place. -/
theorem pairwise_sort (o : RowOrder) {rows : List Nat} (hrows : rows.Pairwise (· < ·)) :
    (o.sort rows).Pairwise o.Before := by
  have htrans : ∀ a b c : Nat, (o.compare a b).isLE = true → (o.compare b c).isLE = true →
      (o.compare a c).isLE = true := fun _ _ _ => Std.TransCmp.isLE_trans
  have htotal : ∀ a b : Nat, ((o.compare a b).isLE || (o.compare b a).isLE) = true := by
    intro a b
    rw [o.compare_swap a b]
    cases o.compare a b <;> rfl
  have hnodup : (o.sort rows).Nodup := (o.perm_sort rows).nodup_iff.2 (hrows.imp Nat.ne_of_lt)
  refine List.pairwise_iff_forall_sublist.2 fun {a b} hab => ?_
  have hle := List.pairwise_iff_forall_sublist.1 (List.pairwise_mergeSort htrans htotal rows) hab
  cases hcompare : o.compare a b with
  | lt => exact .inl hcompare
  | gt =>
    rw [hcompare] at hle
    cases hle
  | eq =>
    refine .inr ⟨hcompare, ?_⟩
    have ha : a ∈ rows := (o.perm_sort rows).mem_iff.1 (hab.subset List.mem_cons_self)
    have hb : b ∈ rows := (o.perm_sort rows).mem_iff.1 (hab.subset (by simp))
    rcases Nat.lt_trichotomy a b with hlt | rfl | hgt
    · exact hlt
    · exact absurd (hab.nodup hnodup) (by simp)
    · -- tied rows stay as they stand
      have hback : (o.compare b a).isLE = true := by
        rw [o.compare_swap a b, hcompare]
        rfl
      have hba := List.pair_sublist_mergeSort htrans htotal hback (pair_sublist hrows hb ha hgt)
      exact absurd hba (not_pair_sublist hnodup hab)

/-- Rows in strict order are what sorting makes of them. -/
theorem sort_eq_of_pairwise (o : RowOrder) {rows sorted : List Nat} (hrows : rows.Pairwise (· < ·))
    (hperm : rows.Perm sorted) (hsorted : sorted.Pairwise o.Before) : o.sort rows = sorted :=
  ((o.perm_sort rows).trans hperm).eq_of_pairwise (fun _ _ _ _ hab hba => absurd hba hab.asymm)
    (o.pairwise_sort hrows) hsorted

/-- Rows that pass a test come in the same order when they are sorted by themselves. -/
theorem sort_filter (o : RowOrder) {rows : List Nat} (hrows : rows.Pairwise (· < ·))
    (p : Nat → Bool) : o.sort (rows.filter p) = (o.sort rows).filter p :=
  o.sort_eq_of_pairwise (hrows.filter p) ((o.perm_sort rows).filter p).symm
    ((o.pairwise_sort hrows).filter p)

/-! ## Copied rows -/

/-- Copied rows compare like the rows that they were copied from. -/
theorem compare_take? {o p : RowOrder} {rows : List Nat} (h : o.take? rows = some p)
    {i j a b : Nat} (hi : rows[i]? = some a) (hj : rows[j]? = some b) :
    p.compare i j = o.compare a b := by
  obtain ⟨keys, hkeys, rfl⟩ := Option.map_eq_some_iff.1 h
  have hcopies := mapM_eq_some_iff.1 hkeys
  rw [← List.forall₂_eq_eq_eq, List.forall₂_map_left_iff, List.forall₂_map_right_iff] at hcopies
  show compareBy keys i j = compareBy o.keys a b
  clear hkeys h
  generalize o.keys = ks at hcopies
  induction hcopies with
  | nil => rfl
  | @cons k copy _ _ hcopy _ ih =>
    obtain ⟨values, hvalues, rfl⟩ := Option.map_eq_some_iff.1 hcopy
    have hvalue : ∀ {place row : Nat}, rows[place]? = some row →
        SortKey.valueAt ⟨values.toArray, k.descending⟩ place = k.valueAt row := by
      intro place row hrow
      unfold SortKey.valueAt
      rw [List.getElem?_toArray, getElem?_of_mapM hvalues, hrow, Option.bind_some]
    rw [compareBy, compareBy, ih]
    unfold SortKey.compare
    rw [hvalue hi, hvalue hj]

/-- Copies of sorted rows are sorted as they stand. -/
theorem sort_range_take? {o p : RowOrder} {rows : List Nat} (hrows : rows.Pairwise o.Before)
    (h : o.take? rows = some p) : p.sort (List.range rows.length) = List.range rows.length := by
  have hbefore : (List.range rows.length).Pairwise p.Before := by
    rw [List.pairwise_iff_getElem] at hrows ⊢
    intro i j hi hj hij
    rw [List.length_range] at hi hj
    rw [List.getElem_range, List.getElem_range]
    have hcompare := compare_take? h (List.getElem?_eq_getElem hi) (List.getElem?_eq_getElem hj)
    exact (hrows i j hi hj hij).imp (hcompare.trans ·) fun hab => ⟨hcompare.trans hab.1, hij⟩
  exact p.sort_eq_of_pairwise List.pairwise_lt_range (List.Perm.refl _) hbefore

end RowOrder

end ColumnQuery
