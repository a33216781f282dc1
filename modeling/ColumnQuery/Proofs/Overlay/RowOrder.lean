/-
  Sorting orders that cover a table.

  An order covers `total` rows if every key has a value for each of them. Orders are built that
  way and stay so when rows are copied; a list of covered rows can then be sorted, and sorting
  only puts it in another order.
-/
import ColumnQuery.Overlay.RowOrder
import ColumnQuery.Proofs.Formula.Rows

namespace ColumnQuery

namespace RowOrder

/-- Every key has a value for each of `total` rows. -/
def Covers (o : RowOrder) (total : Nat) : Prop := ∀ k ∈ o.keys, k.values.size = total

theorem covers_build? {keys : List (Formula × Bool)} {rows : List Nat} {total : Nat}
    {o : RowOrder} (h : build? keys rows total = some o) : o.Covers total := by
  obtain ⟨sorted, hsorted, rfl⟩ := Option.map_eq_some_iff.1 h
  intro k hk
  obtain ⟨e, -, he⟩ := mem_of_mapM hsorted hk
  obtain ⟨cells, hcells, rfl⟩ := Option.map_eq_some_iff.1 he
  exact Formula.size_of_evalRows? hcells

theorem covers_take? {o p : RowOrder} {rows : List Nat} (h : o.take? rows = some p) :
    p.Covers rows.length := by
  obtain ⟨taken, htaken, rfl⟩ := Option.map_eq_some_iff.1 h
  intro k hk
  obtain ⟨e, -, he⟩ := mem_of_mapM htaken hk
  obtain ⟨values, hvalues, rfl⟩ := Option.map_eq_some_iff.1 he
  show values.toArray.size = rows.length
  rw [List.size_toArray, length_of_mapM hvalues]

theorem Covers.covers {o : RowOrder} {total : Nat} (ho : o.Covers total) {row : Nat}
    (hrow : row < total) : o.covers row = true := by
  unfold RowOrder.covers
  rw [List.all_eq_true]
  intro k hk
  rw [decide_eq_true_eq, ho k hk]
  exact hrow

/-- Covered rows can be sorted. -/
theorem Covers.sort?_eq {o : RowOrder} {total : Nat} (ho : o.Covers total) {rows : List Nat}
    (hrows : ∀ row ∈ rows, row < total) : o.sort? rows = some (o.sort rows) := by
  unfold sort?
  have hall : rows.all o.covers = true := by
    rw [List.all_eq_true]
    exact fun row hrow => ho.covers (hrows row hrow)
  rw [hall, Bool.or_true, if_pos rfl]

theorem perm_sort (o : RowOrder) (rows : List Nat) : (o.sort rows).Perm rows :=
  List.mergeSort_perm rows _

theorem eq_sort_of_sort? {o : RowOrder} {rows sorted : List Nat} (h : o.sort? rows = some sorted) :
    sorted = o.sort rows := by
  unfold sort? at h
  split at h
  · exact (Option.some.inj h).symm
  · cases h

theorem Covers.exists_take? {o : RowOrder} {total : Nat} (ho : o.Covers total) {rows : List Nat}
    (hrows : ∀ row ∈ rows, row < total) : ∃ p, o.take? rows = some p := by
  obtain ⟨keys, hkeys⟩ := exists_mapM (SortKey.take? · rows) o.keys fun k hk => by
    obtain ⟨values, hvalues⟩ := exists_mapM (fun row => k.values[row]?) rows
      fun row hrow => by
        have hlt : row < k.values.size := by
          rw [ho k hk]
          exact hrows row hrow
        exact ⟨_, Array.getElem?_eq_getElem hlt⟩
    exact ⟨_, Option.map_eq_some_iff.2 ⟨values, hvalues, rfl⟩⟩
  exact ⟨_, Option.map_eq_some_iff.2 ⟨keys, hkeys, rfl⟩⟩

end RowOrder

end ColumnQuery
