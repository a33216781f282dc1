/-
  Cells placed at rows.

  Placing values at listed rows succeeds exactly if the rows lie inside, keeps the number of
  cells, and is read back row by row: a listed row holds its value (`getElem?_placeCells?`), any
  other row what it held before (`getElem?_placeCells?_of_notMem`). So the cells of a formula are
  its values at the listed rows (`evalRows?_spec`).
-/
import ColumnQuery.Formula.Rows
import ColumnQuery.Proofs.Lists

namespace ColumnQuery

variable {α : Type}

theorem placeCells?_cons {cells out : Array α} {row : Nat} {rows : List Nat} {v : α}
    {values : List α} (h : placeCells? cells (row :: rows) (v :: values) = some out) :
    row < cells.size ∧ placeCells? (cells.setIfInBounds row v) rows values = some out := by
  unfold placeCells? at h
  rw [List.zip_cons_cons, List.foldlM_cons] at h
  obtain ⟨next, hnext, h⟩ := Option.bind_eq_some_iff.1 h
  simp only [] at hnext
  split at hnext
  case isTrue hrow =>
    obtain rfl := Option.some.inj hnext
    exact ⟨hrow, h⟩
  case isFalse => cases hnext

theorem size_of_placeCells? {cells out : Array α} {rows : List Nat} {values : List α}
    (h : placeCells? cells rows values = some out) : out.size = cells.size := by
  refine foldlM_option_keeps (fun out : Array α => out.size = cells.size) ?_ rfl h
  rintro b ⟨row, v⟩ b' - hb hstep
  simp only [] at hstep
  split at hstep
  · obtain rfl := Option.some.inj hstep
    rw [Array.size_setIfInBounds, hb]
  · cases hstep

theorem exists_placeCells? {cells : Array α} {rows : List Nat} (values : List α)
    (hrows : ∀ row ∈ rows, row < cells.size) : ∃ out, placeCells? cells rows values = some out := by
  induction rows generalizing cells values with
  | nil => exact ⟨cells, rfl⟩
  | cons row rest ih =>
    cases values with
    | nil => exact ⟨cells, rfl⟩
    | cons v values =>
      have hrest : ∀ other ∈ rest, other < (cells.setIfInBounds row v).size := by
        intro other hother
        rw [Array.size_setIfInBounds]
        exact hrows other (List.mem_cons_of_mem _ hother)
      obtain ⟨out, hout⟩ := ih values hrest
      refine ⟨out, ?_⟩
      unfold placeCells? at hout ⊢
      rw [List.zip_cons_cons, List.foldlM_cons]
      simp only [hrows row List.mem_cons_self, if_true]
      exact hout

theorem getElem?_placeCells?_of_notMem {cells out : Array α} {rows : List Nat}
    {values : List α} (h : placeCells? cells rows values = some out) {row : Nat}
    (hrow : row ∉ rows) : out[row]? = cells[row]? := by
  induction rows generalizing cells values with
  | nil =>
    obtain rfl : cells = out := Option.some.inj h
    rfl
  | cons first rest ih =>
    cases values with
    | nil =>
      obtain rfl : cells = out := Option.some.inj h
      rfl
    | cons v values =>
      obtain ⟨-, h⟩ := placeCells?_cons h
      rw [ih h fun hmem => hrow (List.mem_cons_of_mem _ hmem), Array.getElem?_setIfInBounds]
      have hne : ¬ first = row := fun heq => hrow (heq ▸ List.mem_cons_self)
      rw [if_neg hne]

/-- A row that is listed once holds the value listed with it, if there is one. -/
theorem getElem?_placeCells? {cells out : Array α} {rows : List Nat} {values : List α}
    (hnodup : rows.Nodup) (h : placeCells? cells rows values = some out) {i row : Nat}
    (hrow : rows[i]? = some row) : out[row]? = values[i]?.or cells[row]? := by
  induction rows generalizing cells values i with
  | nil => simp at hrow
  | cons first rest ih =>
    cases values with
    | nil =>
      obtain rfl : cells = out := Option.some.inj h
      rfl
    | cons v values =>
      obtain ⟨hlt, h⟩ := placeCells?_cons h
      obtain ⟨hfirst, hrest⟩ := List.nodup_cons.1 hnodup
      cases i with
      | zero =>
        obtain rfl : first = row := Option.some.inj hrow
        rw [getElem?_placeCells?_of_notMem h hfirst, Array.getElem?_setIfInBounds]
        simp [hlt]
      | succ i =>
        have hne : ¬ first = row := fun heq => hfirst (heq ▸ List.mem_of_getElem? hrow)
        rw [ih hrest h hrow, Array.getElem?_setIfInBounds, if_neg hne]
        rfl

namespace Formula

theorem size_of_evalRows? {f : Formula} {results : OpRef → Nat → Option Value} {rows : List Nat}
    {total : Nat} {cells : Array Value} (h : f.evalRows? results rows total = some cells) :
    cells.size = total := by
  obtain ⟨values, -, hplace⟩ := Option.bind_eq_some_iff.1 h
  rw [size_of_placeCells? hplace, Array.size_replicate]

/-- A formula that has a value at every listed row has cells, which hold these values. -/
theorem evalRows?_spec {f : Formula} {results : OpRef → Nat → Option Value} {rows : List Nat}
    {total : Nat} (hnodup : rows.Nodup) (hrows : ∀ row ∈ rows, row < total)
    (hvalue : ∀ row ∈ rows, ∃ x, f.evalRow results row = some x) :
    ∃ cells, f.evalRows? results rows total = some cells ∧
      ∀ row ∈ rows, cells[row]? = f.evalRow results row := by
  obtain ⟨values, hvalues⟩ := exists_mapM (f.evalRow results) rows hvalue
  have hrows' : ∀ row ∈ rows, row < (Array.replicate total Value.null).size := by
    intro row hrow
    rw [Array.size_replicate]
    exact hrows row hrow
  obtain ⟨cells, hcells⟩ := exists_placeCells? values hrows'
  refine ⟨cells, Option.bind_eq_some_iff.2 ⟨values, hvalues, hcells⟩, fun row hrow => ?_⟩
  obtain ⟨i, hi⟩ := List.mem_iff_getElem?.1 hrow
  obtain ⟨x, hx⟩ := hvalue row hrow
  rw [getElem?_placeCells? hnodup hcells hi, getElem?_of_mapM hvalues i, hi, Option.bind_some, hx]
  rfl

end Formula

end ColumnQuery
