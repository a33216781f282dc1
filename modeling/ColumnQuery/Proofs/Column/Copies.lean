/-
  Columns by the cells that went into them.

  A column is made of cells in one of five ways (`Making`) and then copied, by rows of the column,
  rows of the copy, and so on (`takes?`). Where such a chain of copies names rows that are there, it
  goes through, and a row of the last copy reads as the cell at the row that it comes from
  (`originOf?`), whatever the encoding, the masks and the placeholders on the way.

  A dictionary keeps its words when rows are copied. The key of a row is that of its text, and keys
  are below the number of rows that were encoded. A value that is looked up as absent is no cell of
  the column, with one exception: null is absent from every dictionary, also where rows are null
  (`takes?_faithful`).
-/
import ColumnQuery.Proofs.Formula.Readings

namespace ColumnQuery

/-! ## Chains of row lists -/

/-- Every list names rows of the column before it, the first list rows of one of length `n`. -/
def RowsInRange : Nat → List (List Nat) → Prop
  | _, [] => True
  | n, rows :: chain => (∀ row ∈ rows, row < n) ∧ RowsInRange rows.length chain

/-- The row at the start of a chain from which a row at its end is copied. -/
def originOf? : List (List Nat) → Nat → Option Nat
  | [], i => some i
  | rows :: chain, i => (originOf? chain i).bind (rows[·]?)

/-- The number of rows at the end of a chain. -/
def rowsAfter (n : Nat) (chain : List (List Nat)) : Nat := chain.getLast?.elim n List.length

theorem rowsAfter_cons (n : Nat) (rows : List Nat) (chain : List (List Nat)) :
    rowsAfter n (rows :: chain) = rowsAfter rows.length chain := by
  unfold rowsAfter
  rw [List.getLast?_cons]
  cases chain.getLast? <;> rfl

/-- In range, every row at the end comes from a row at the start. -/
theorem RowsInRange.exists_origin {n : Nat} {chain : List (List Nat)} (h : RowsInRange n chain)
    {i : Nat} (hi : i < rowsAfter n chain) : ∃ row < n, originOf? chain i = some row := by
  induction chain generalizing n with
  | nil => exact ⟨i, hi, rfl⟩
  | cons rows chain ih =>
    rw [rowsAfter_cons] at hi
    obtain ⟨j, hj, horigin⟩ := ih h.2 hi
    refine ⟨rows[j], h.1 _ (List.getElem_mem hj), ?_⟩
    rw [originOf?, horigin, Option.bind_some, List.getElem?_eq_getElem hj]

namespace Column

variable {c d : Column} {rows : List Nat} {chain : List (List Nat)}

/-! ## Ways to make a column -/

/-- How a column is made. -/
inductive Making where
  | values (cells : List Value)
  | floats (xs : List Float)
  | floatOptions (xs : List (Option Float))
  | texts (rows : List (Option String))
  /-- Of computed cells, in the encoding that fits them. -/
  | computed (cells : List Value)

namespace Making

def column : Making → Column
  | values cells => .ofValues cells
  | floats xs => .ofFloats xs
  | floatOptions xs => .ofFloatOptions xs
  | texts rows => .ofTextOptions rows
  | computed cells => .ofCells cells

/-- The cells that go into the column; nothing is null. -/
def cells : Making → List Value
  | values cells | computed cells => cells
  | floats xs => xs.map .number
  | floatOptions xs => xs.map fun x => (x.map Value.number).getD .null
  | texts rows => rows.map fun s => (s.map Value.string).getD .null

theorem length_column (how : Making) : how.column.length = how.cells.length := by
  cases how with
  | values cells => exact List.size_toArray
  | floats xs => exact List.size_toArray.trans (List.length_map _).symm
  | floatOptions xs => exact (length_ofFloatOptions xs).trans (List.length_map _).symm
  | texts rows => exact (length_ofTextOptions rows).trans (List.length_map _).symm
  | computed cells => exact length_ofCells cells

theorem get?_column (how : Making) (i : Nat) : how.column.get? i = how.cells[i]? := by
  cases how with
  | values cells => exact List.getElem?_toArray
  | floats xs => simp [column, cells, ofFloats, get?, admits]
  | floatOptions xs => exact (get?_ofFloatOptions xs i).trans List.getElem?_map.symm
  | texts rows => exact (get?_ofTextOptions rows i).trans List.getElem?_map.symm
  | computed cells => exact get?_ofCells cells i

theorem wellFormed_column (how : Making) : how.column.WellFormed :=
  wellFormed_of_get? how.cells how.length_column how.get?_column

end Making

/-! ## Chains of copies -/

/-- Copies rows, then rows of the copy, and so on. -/
def takes? (c : Column) (chain : List (List Nat)) : Option Column := chain.foldlM take? c

theorem takes?_cons : c.takes? (rows :: chain) = (c.take? rows).bind (·.takes? chain) := rfl

/-- Only rows that are there are copied. -/
theorem lt_length_of_take? (h : c.take? rows = some d) : ∀ row ∈ rows, row < c.length := by
  intro row hrow
  cases c with
  | values cells =>
    obtain ⟨picked, hpicked, -⟩ := Option.map_eq_some_iff.1 h
    obtain ⟨x, -, hx⟩ := exists_of_mapM hpicked hrow
    exact (Array.getElem?_eq_some_iff.1 hx).1
  | numbers entries validity =>
    obtain ⟨picked, hpicked, -⟩ := Option.map_eq_some_iff.1 h
    obtain ⟨x, -, hx⟩ := exists_of_mapM hpicked hrow
    obtain ⟨entry, hentry, -⟩ := Option.map_eq_some_iff.1 hx
    exact (Array.getElem?_eq_some_iff.1 hentry).1
  | dictionary words keys validity =>
    obtain ⟨taken, htaken, -⟩ := Option.bind_eq_some_iff.1 h
    obtain ⟨key, -, hkey⟩ := exists_of_mapM htaken hrow
    exact (Array.getElem?_eq_some_iff.1 hkey).1

/-- A chain of copies goes through if it names rows that are there. -/
theorem WellFormed.exists_takes? (hc : c.WellFormed) (h : RowsInRange c.length chain) :
    ∃ d, c.takes? chain = some d := by
  induction chain generalizing c with
  | nil => exact ⟨c, rfl⟩
  | cons rows chain ih =>
    obtain ⟨copy, hcopy⟩ := hc.take? h.1
    obtain ⟨d, hd⟩ := ih (hc.of_take? h.1 hcopy) (by rw [length_of_take? hcopy]; exact h.2)
    exact ⟨d, by rw [takes?_cons, hcopy, Option.bind_some, hd]⟩

/-- What a chain of copies keeps: the cells of the rows and their keys, and all words. -/
structure CopyOf (c : Column) (chain : List (List Nat)) (d : Column) : Prop where
  inRange : RowsInRange c.length chain
  length : d.length = rowsAfter c.length chain
  get? : ∀ i, d.get? i = (originOf? chain i).bind c.get?
  keyAt? : ∀ i row, originOf? chain i = some row → d.keyAt? i = c.keyAt? row
  lookup : ∀ x, d.lookup x = c.lookup x

theorem copyOf_of_takes? (h : c.takes? chain = some d) : c.CopyOf chain d := by
  induction chain generalizing c with
  | nil =>
    obtain rfl : c = d := Option.some.inj h
    exact ⟨trivial, rfl, fun _ => rfl, fun _ _ hrow => Option.some.inj hrow ▸ rfl, fun _ => rfl⟩
  | cons rows chain ih =>
    rw [takes?_cons] at h
    obtain ⟨copy, hcopy, h⟩ := Option.bind_eq_some_iff.1 h
    have hlater := ih h
    refine ⟨⟨lt_length_of_take? hcopy, ?_⟩, ?_, fun i => ?_, fun i row hrow => ?_, fun x => ?_⟩
    · rw [← length_of_take? hcopy]
      exact hlater.inRange
    · rw [hlater.length, rowsAfter_cons, length_of_take? hcopy]
    · rw [hlater.get?, originOf?, Option.bind_assoc]
      exact congrArg _ (funext (get?_take? hcopy))
    · obtain ⟨j, hj, hrow⟩ := Option.bind_eq_some_iff.1 hrow
      rw [hlater.keyAt? i j hj, keyAt?_take? hcopy hrow]
    · rw [hlater.lookup, lookup_take? hcopy]

/-! ## Keys -/

/-- Interning adds at most one word. -/
theorem size_intern (words : Array String) (s : String) :
    (intern words s).1.size ≤ words.size + 1 := by
  unfold intern
  split
  next => exact Nat.le_succ _
  next => exact Nat.le_of_eq (Array.size_push s)

/-- There are no more words than rows. -/
theorem size_encodeFrom (words : Array String) (rows : List (Option String)) :
    (encodeFrom words rows).1.size ≤ words.size + rows.length := by
  induction rows generalizing words with
  | nil => exact Nat.le_refl _
  | cons row rows ih =>
    rw [List.length_cons]
    cases row with
    | none => exact Nat.le_trans (ih words) (by omega)
    | some s =>
      have hrest := ih (intern words s).1
      have hfirst := size_intern words s
      exact Nat.le_trans hrest (by omega)

/-- The keys of encoded texts are below the number of rows. -/
theorem lt_length_of_keyAt? {texts : List (Option String)} {row k : Nat}
    (h : (ofTextOptions texts).keyAt? row = some (some k)) : k < texts.length := by
  have hrow : row < texts.length := by
    obtain ⟨key, hkey, -⟩ := Option.map_eq_some_iff.1 h
    have hlt := (Array.getElem?_eq_some_iff.1 hkey).1
    rwa [List.size_toArray, length_encodeFrom] at hlt
  obtain ⟨x, hx⟩ := wellFormed_ofTextOptions texts row (by rwa [length_ofTextOptions])
  rcases get?_dictionary_eq_some hx with ⟨-, hnone⟩ | ⟨key, w, hw, -, hkey⟩
  · cases h.symm.trans hnone
  · obtain rfl : k = key := Option.some.inj (Option.some.inj (h.symm.trans hkey))
    have hsize := size_encodeFrom #[] texts
    have hlt : k < (encodeFrom #[] texts).1.size := (Array.getElem?_eq_some_iff.1 hw).1
    simp only [List.size_toArray, List.length_nil] at hsize
    omega

/-- A word of a dictionary is found in it. -/
theorem exists_present {words : Array String} (keys : Array Nat) (validity : Option BitSet)
    {key : Nat} {w : String} (hw : words[key]? = some w) :
    ∃ k, (dictionary words keys validity).lookup (.string w) = some (.present k) := by
  have hfound : (words.findIdx? (· == w)).isSome = true := by
    rw [Array.findIdx?_isSome, Array.any_eq_true]
    obtain ⟨hlt, rfl⟩ := Array.getElem?_eq_some_iff.1 hw
    exact ⟨key, hlt, beq_self_eq_true _⟩
  obtain ⟨k, hk⟩ := Option.isSome_iff_exists.1 hfound
  exact ⟨k, by rw [lookup, hk]⟩

/-- The key of a row is the one under which its text is found. -/
theorem keyAt?_eq_some_iff (hc : c.DistinctWords) {row k : Nat} {x : Value}
    (hx : c.get? row = some x) : c.keyAt? row = some (some k) ↔
      ∃ s, x = .string s ∧ c.lookup (.string s) = some (.present k) := by
  constructor
  · intro h
    cases c with
    | dictionary words keys validity =>
      rcases get?_dictionary_eq_some hx with ⟨-, hnone⟩ | ⟨key, w, hw, rfl, hkey⟩
      · cases h.symm.trans hnone
      · obtain rfl : k = key := Option.some.inj (Option.some.inj (h.symm.trans hkey))
        obtain ⟨found, hfound⟩ := exists_present keys validity hw
        obtain ⟨stored, hstored, hsame⟩ := keyAt?_of_present hc hfound hx
        obtain rfl : some k = stored := Option.some.inj (h.symm.trans hstored)
        have hequal : (some k == some found) = true := hsame.trans (beq_self_eq_true (some w))
        exact ⟨w, rfl, by rw [hfound, Option.some.inj (eq_of_beq hequal)]⟩
    | values _ => cases h
    | numbers _ _ => cases h
  · rintro ⟨s, rfl, hentry⟩
    obtain ⟨stored, hstored, hsame⟩ := keyAt?_of_present hc hentry hx
    have hequal : (stored == some k) = true := hsame.trans (beq_self_eq_true (some s))
    rw [hstored, eq_of_beq hequal]

/-- What a dictionary lacks is none of its cells, unless both are null. -/
theorem same_iff_of_absent {x : Value} (h : c.lookup x = some .absent) {row : Nat} {cell : Value}
    (hcell : c.get? row = some cell) : cell.same x = true ↔ cell = .null ∧ x = .null := by
  cases c with
  | dictionary words keys validity =>
    rcases get?_dictionary_eq_some hcell with ⟨rfl, -⟩ | ⟨key, w, hw, rfl, -⟩
    · cases x <;> simp [Value.same]
    · cases x with
      | string s =>
        have hne : w ≠ s := by
          rintro rfl
          obtain ⟨k, hk⟩ := exists_present keys validity hw
          cases h.symm.trans hk
        simp [Value.same, hne]
      | _ => simp [Value.same]
  | values _ => cases h
  | numbers _ _ => cases h

/-! ## Faithful copies -/

/-- A chain of copies goes through exactly if it names rows that are there, and its last copy then
    holds the cells that the column was made of, in the places that the lists of rows give them.
    For encoded texts the key of a row is the one under which its text is found, and a value that
    is looked up as absent equals no cell, unless the value and the cell are null. -/
theorem takes?_faithful (how : Making) (chain : List (List Nat)) :
    ((∃ c, how.column.takes? chain = some c) ↔ RowsInRange how.cells.length chain) ∧
    ∀ c, how.column.takes? chain = some c →
      c.length = rowsAfter how.cells.length chain ∧
      (∀ i < c.length, ∃ row cell, originOf? chain i = some row ∧
        how.cells[row]? = some cell ∧ c.get? i = some cell) ∧
      ∀ texts, how = .texts texts →
        (∀ i < c.length, ∀ k, c.keyAt? i = some (some k) ↔
          ∃ s, c.get? i = some (.string s) ∧ c.lookup (.string s) = some (.present k)) ∧
        (∀ i < c.length, ∀ k, c.keyAt? i = some (some k) → k < texts.length) ∧
        (∀ x, ∃ entry, c.lookup x = some entry) ∧
        ∀ x, c.lookup x = some .absent → ∀ i cell, c.get? i = some cell →
          (cell.same x = true ↔ cell = .null ∧ x = .null) := by
  have hlength := how.length_column
  refine ⟨⟨fun ⟨c, hc⟩ => hlength ▸ (copyOf_of_takes? hc).inRange,
    fun h => how.wellFormed_column.exists_takes? (hlength ▸ h)⟩, fun c hc => ?_⟩
  have hcopy := copyOf_of_takes? hc
  have hcount : c.length = rowsAfter how.cells.length chain := hlength ▸ hcopy.length
  have hcells : ∀ i < c.length, ∃ row cell, originOf? chain i = some row ∧
      how.cells[row]? = some cell ∧ c.get? i = some cell := by
    intro i hi
    rw [hcopy.length] at hi
    obtain ⟨row, hrow, horigin⟩ := hcopy.inRange.exists_origin hi
    obtain ⟨cell, hcell⟩ := how.wellFormed_column row hrow
    refine ⟨row, cell, horigin, how.get?_column row ▸ hcell, ?_⟩
    rw [hcopy.get?, horigin, Option.bind_some, hcell]
  refine ⟨hcount, hcells, ?_⟩
  rintro texts rfl
  have hwords : Column.DistinctWords (Making.texts texts).column := distinctWords_ofTextOptions texts
  refine ⟨fun i hi k => ?_, fun i hi k hkey => ?_, fun x => ?_, fun x hx i cell hcell => ?_⟩
  · obtain ⟨row, cell, horigin, hcell, hget⟩ := hcells i hi
    rw [← Making.get?_column] at hcell
    rw [hcopy.keyAt? i row horigin, keyAt?_eq_some_iff hwords hcell, hget]
    simp only [hcopy.lookup, Option.some.injEq]
  · obtain ⟨row, -, horigin, -⟩ := hcells i hi
    rw [hcopy.keyAt? i row horigin] at hkey
    exact lt_length_of_keyAt? hkey
  · rw [hcopy.lookup]
    cases x <;> exact ⟨_, rfl⟩
  · rw [hcopy.lookup] at hx
    rw [hcopy.get?] at hcell
    obtain ⟨row, -, hcell⟩ := Option.bind_eq_some_iff.1 hcell
    exact same_iff_of_absent hx hcell

end Column

end ColumnQuery
