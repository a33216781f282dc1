/-
  Well-formed columns and tables.

  A column is well formed if every row has a cell; a table if its names are distinct and its
  columns are well formed and as long as the table has rows. Every way to build or change a
  table keeps this. A column of given cells reads back exactly these cells (`get?_ofCells`), and
  copied rows read as the rows that they were copied from (`get?_take?`).
-/
import ColumnQuery.Proofs.BitSet
import ColumnQuery.Proofs.Lists
import ColumnQuery.Table.Builder

namespace ColumnQuery

/-! ## Columns -/

namespace Column

/-- Every row has a cell. -/
def WellFormed (c : Column) : Prop := ∀ row < c.length, ∃ v, c.get? row = some v

theorem get?_eq_none (c : Column) (row : Nat) (h : c.length ≤ row) : c.get? row = none := by
  cases c with
  | values cells => exact Array.getElem?_eq_none h
  | numbers entries validity =>
    simp only [get?]
    rw [Array.getElem?_eq_none h]
    rfl
  | dictionary words keys validity =>
    simp only [get?]
    rw [Array.getElem?_eq_none h]
    rfl

/-- A mask admits the rows that hold something. -/
theorem admits_maskOf {α : Type} (rows : Array (Option α)) (i : Nat) (hi : i < rows.size) :
    admits (maskOf rows) i = rows[i].isSome := by
  unfold maskOf
  split
  next hall =>
    rw [Array.all_eq_true] at hall
    exact (hall i hi).symm
  next =>
    show (BitSet.ofPredicate rows.size _).contains i = _
    rw [(BitSet.ofPredicate_spec _ _).2.2]
    simp [hi]

theorem length_ofFloatOptions (xs : List (Option Float)) :
    (ofFloatOptions xs).length = xs.length := by
  simp [ofFloatOptions, length]

theorem get?_ofFloatOptions (xs : List (Option Float)) (i : Nat) :
    (ofFloatOptions xs).get? i = xs[i]?.map fun x => (x.map Value.number).getD .null := by
  unfold ofFloatOptions
  simp only [get?]
  by_cases hi : i < xs.length
  · have hmask := admits_maskOf xs.toArray i (by simpa using hi)
    rw [hmask]
    cases hx : xs[i] with
    | none => simp [hi, hx]
    | some x => simp [hi, hx]
  · have hle : xs.length ≤ i := by omega
    simp [hle]

theorem length_ofCells (cells : List Value) : (ofCells cells).length = cells.length := by
  unfold ofCells
  simp only []
  split
  · rw [length_ofFloatOptions, List.length_map]
  · simp [ofValues, length]

/-- A column of cells holds these cells, however it encodes them. -/
theorem get?_ofCells (cells : List Value) (i : Nat) : (ofCells cells).get? i = cells[i]? := by
  unfold ofCells
  simp only []
  split
  next h =>
    rw [get?_ofFloatOptions, List.getElem?_map]
    rw [Bool.and_eq_true, List.all_eq_true] at h
    cases hv : cells[i]? with
    | none => rfl
    | some v =>
      have hnum := h.1 v (List.mem_of_getElem? hv)
      cases v with
      | null => rfl
      | number x => rfl
      | boolean b => simp at hnum
      | string s => simp at hnum
      | date ms => simp at hnum
      | array items => simp at hnum
      | object entries => simp at hnum
  next => simp [ofValues, get?]

theorem wellFormed_of_get? {c : Column} (cells : List Value) (hlen : c.length = cells.length)
    (hget : ∀ i, c.get? i = cells[i]?) : c.WellFormed := by
  intro row hrow
  rw [hlen] at hrow
  exact ⟨cells[row], by rw [hget, List.getElem?_eq_getElem hrow]⟩

theorem wellFormed_ofCells (cells : List Value) : (ofCells cells).WellFormed :=
  wellFormed_of_get? cells (length_ofCells cells) (get?_ofCells cells)

theorem wellFormed_ofValues (cells : List Value) : (ofValues cells).WellFormed :=
  wellFormed_of_get? cells (by simp [ofValues, length]) (by simp [ofValues, get?])

theorem wellFormed_ofFloatOptions (xs : List (Option Float)) :
    (ofFloatOptions xs).WellFormed := by
  intro row hrow
  rw [length_ofFloatOptions] at hrow
  rw [get?_ofFloatOptions, List.getElem?_eq_getElem hrow]
  exact ⟨_, rfl⟩

/-! ### Texts -/

/-- An interned text is a word, and words keep their keys. -/
theorem intern_spec (words : Array String) (s : String) :
    (intern words s).1[(intern words s).2]? = some s ∧
      ∀ (k : Nat) (w : String), words[k]? = some w → (intern words s).1[k]? = some w := by
  unfold intern
  split
  next key hkey =>
    obtain ⟨hlt, hs, -⟩ := Array.findIdx?_eq_some_iff_getElem.1 hkey
    refine ⟨?_, fun _ _ h => h⟩
    rw [Array.getElem?_eq_getElem hlt, eq_of_beq hs]
  next =>
    refine ⟨Array.getElem?_push_size, fun k w h => ?_⟩
    rw [Array.getElem?_push_lt (Array.getElem?_eq_some_iff.1 h).1]
    exact congrArg some (Array.getElem?_eq_some_iff.1 h).2

theorem length_encodeFrom (words : Array String) (rows : List (Option String)) :
    (encodeFrom words rows).2.length = rows.length := by
  induction rows generalizing words with
  | nil => rfl
  | cons row rest ih =>
    cases row with
    | none => exact congrArg (· + 1) (ih words)
    | some s => exact congrArg (· + 1) (ih (intern words s).1)

theorem encodeFrom_words (words : Array String) (rows : List (Option String)) (k : Nat)
    (w : String) (h : words[k]? = some w) : (encodeFrom words rows).1[k]? = some w := by
  induction rows generalizing words with
  | nil => exact h
  | cons row rest ih =>
    cases row with
    | none => exact ih words h
    | some s => exact ih _ ((intern_spec words s).2 k w h)

/-- The key of a text leads to the text. -/
theorem encodeFrom_keys (words : Array String) (rows : List (Option String)) (i : Nat)
    (s : String) (h : rows[i]? = some (some s)) :
    ∃ key, (encodeFrom words rows).2[i]? = some key ∧
      (encodeFrom words rows).1[key]? = some s := by
  induction rows generalizing words i with
  | nil => simp at h
  | cons row rest ih =>
    cases i with
    | zero =>
      obtain rfl : row = some s := by simpa using h
      refine ⟨(intern words s).2, rfl, ?_⟩
      exact encodeFrom_words _ rest _ s (intern_spec words s).1
    | succ i =>
      have h' : rest[i]? = some (some s) := by simpa using h
      cases row with
      | none => exact ih words i h'
      | some t => exact ih (intern words t).1 i h'

theorem length_ofTextOptions (rows : List (Option String)) :
    (ofTextOptions rows).length = rows.length := by
  show (encodeFrom #[] rows).2.toArray.size = _
  rw [List.size_toArray, length_encodeFrom]

theorem get?_ofTextOptions (rows : List (Option String)) (i : Nat) :
    (ofTextOptions rows).get? i = rows[i]?.map fun s => (s.map Value.string).getD .null := by
  by_cases hi : i < rows.length
  · have hlt : i < (encodeFrom #[] rows).2.length := by
      rw [length_encodeFrom]
      exact hi
    have hkeys : (encodeFrom #[] rows).2.toArray[i]? = some (encodeFrom #[] rows).2[i] := by
      rw [List.getElem?_toArray, List.getElem?_eq_getElem hlt]
    have hmask := admits_maskOf rows.toArray i (by simpa using hi)
    simp only [List.getElem_toArray] at hmask
    show ((encodeFrom #[] rows).2.toArray[i]?.bind fun key =>
      if admits (maskOf rows.toArray) i then (encodeFrom #[] rows).1[key]?.map Value.string
      else some Value.null) = _
    rw [hkeys, Option.bind_some, hmask, List.getElem?_eq_getElem hi, Option.map_some]
    cases hrow : rows[i] with
    | none => rfl
    | some s =>
      obtain ⟨key, hkey, hword⟩ := encodeFrom_keys #[] rows i s (by
        rw [List.getElem?_eq_getElem hi, hrow])
      have hk := (List.getElem?_eq_some_iff.1 hkey).2
      rw [hk, hword]
      rfl
  · have hle : rows.length ≤ i := by omega
    rw [get?_eq_none _ _ (by rw [length_ofTextOptions]; exact hle), List.getElem?_eq_none hle]
    rfl

theorem wellFormed_ofTextOptions (rows : List (Option String)) :
    (ofTextOptions rows).WellFormed := by
  intro row hrow
  rw [length_ofTextOptions] at hrow
  rw [get?_ofTextOptions, List.getElem?_eq_getElem hrow]
  exact ⟨_, rfl⟩

/-! ### Copied rows -/

theorem length_of_take? {c d : Column} {rows : List Nat} (h : c.take? rows = some d) :
    d.length = rows.length := by
  cases c with
  | values cells =>
    obtain ⟨vs, hvs, rfl⟩ := Option.map_eq_some_iff.1 h
    have := length_of_mapM hvs
    simpa [ofValues, length] using this
  | numbers entries validity =>
    obtain ⟨xs, hxs, rfl⟩ := Option.map_eq_some_iff.1 h
    rw [length_ofFloatOptions, length_of_mapM hxs]
  | dictionary words keys validity =>
    obtain ⟨taken, htaken, h⟩ := Option.bind_eq_some_iff.1 h
    obtain rfl := Option.some.inj h
    have := length_of_mapM htaken
    simpa [length] using this

/-- The mask of a copy admits the rows whose originals were admitted. -/
theorem admits_held (validity : Option BitSet) {rows : List Nat} {i row : Nat}
    (hr : rows[i]? = some row) : admits (validity.bind fun _ =>
      maskOf (rows.map fun row => if admits validity row then some () else none).toArray) i
      = admits validity row := by
  obtain ⟨hi, hrow⟩ := List.getElem?_eq_some_iff.1 hr
  cases validity with
  | none => rfl
  | some mask =>
    rw [Option.bind_some, admits_maskOf _ i (by simpa using hi)]
    simp only [List.getElem_toArray, List.getElem_map, hrow]
    split <;> simp_all

/-- A copied row reads as the row that it was copied from. -/
theorem get?_take? {c d : Column} {rows : List Nat} (h : c.take? rows = some d) (i : Nat) :
    d.get? i = rows[i]?.bind c.get? := by
  cases c with
  | values cells =>
    obtain ⟨vs, hvs, rfl⟩ := Option.map_eq_some_iff.1 h
    rw [← getElem?_of_mapM hvs i]
    simp [ofValues, get?]
  | numbers entries validity =>
    obtain ⟨xs, hxs, rfl⟩ := Option.map_eq_some_iff.1 h
    rw [get?_ofFloatOptions, getElem?_of_mapM hxs i]
    cases hr : rows[i]? with
    | none => rfl
    | some row =>
      simp only [Option.bind_some, Option.map_map, get?]
      congr 1
      funext x
      simp only [Function.comp_apply]
      split <;> rfl
  | dictionary words keys validity =>
    obtain ⟨taken, htaken, h⟩ := Option.bind_eq_some_iff.1 h
    obtain rfl := Option.some.inj h
    simp only [get?, List.getElem?_toArray]
    rw [getElem?_of_mapM htaken i]
    cases hr : rows[i]? with
    | none => rfl
    | some row =>
      rw [admits_held validity hr]
      rfl

/-- A copied row of a dictionary has the key of the row that it was copied from. -/
theorem keyAt?_take? {c d : Column} {rows : List Nat} (h : c.take? rows = some d) {i row : Nat}
    (hr : rows[i]? = some row) : d.keyAt? i = c.keyAt? row := by
  cases c with
  | values cells =>
    obtain ⟨vs, -, rfl⟩ := Option.map_eq_some_iff.1 h
    rfl
  | numbers entries validity =>
    obtain ⟨xs, -, rfl⟩ := Option.map_eq_some_iff.1 h
    rfl
  | dictionary words keys validity =>
    obtain ⟨taken, htaken, h⟩ := Option.bind_eq_some_iff.1 h
    obtain rfl := Option.some.inj h
    simp only [keyAt?, List.getElem?_toArray]
    rw [getElem?_of_mapM htaken i, hr, Option.bind_some, admits_held validity hr]

/-- A copy has the words of the original dictionary, also those that no row of it uses. -/
theorem lookup_take? {c d : Column} {rows : List Nat} (h : c.take? rows = some d) (x : Value) :
    d.lookup x = c.lookup x := by
  cases c with
  | values cells =>
    obtain ⟨vs, -, rfl⟩ := Option.map_eq_some_iff.1 h
    rfl
  | numbers entries validity =>
    obtain ⟨xs, -, rfl⟩ := Option.map_eq_some_iff.1 h
    rfl
  | dictionary words keys validity =>
    obtain ⟨taken, -, h⟩ := Option.bind_eq_some_iff.1 h
    obtain rfl := Option.some.inj h
    cases x <;> rfl

theorem WellFormed.take? {c : Column} (hc : c.WellFormed) {rows : List Nat}
    (h : ∀ row ∈ rows, row < c.length) : ∃ d, c.take? rows = some d := by
  cases c with
  | values cells =>
    obtain ⟨vs, hvs⟩ := exists_mapM (values cells).get? rows fun row hrow =>
      hc row (h row hrow)
    exact ⟨_, Option.map_eq_some_iff.2 ⟨vs, hvs, rfl⟩⟩
  | numbers entries validity =>
    obtain ⟨xs, hxs⟩ := exists_mapM (fun row => entries[row]?.map fun x =>
        if admits validity row then some x else none) rows fun row hrow => by
      have hlt : row < entries.size := h row hrow
      exact ⟨_, by rw [Array.getElem?_eq_getElem hlt]; rfl⟩
    exact ⟨_, Option.map_eq_some_iff.2 ⟨xs, hxs, rfl⟩⟩
  | dictionary words keys validity =>
    obtain ⟨taken, htaken⟩ := exists_mapM (fun row => keys[row]?) rows
      fun row hrow => by
        have hlt : row < keys.size := h row hrow
        exact ⟨_, Array.getElem?_eq_getElem hlt⟩
    exact ⟨_, Option.bind_eq_some_iff.2 ⟨taken, htaken, rfl⟩⟩

theorem WellFormed.of_take? {c d : Column} (hc : c.WellFormed) {rows : List Nat}
    (hrows : ∀ row ∈ rows, row < c.length) (h : c.take? rows = some d) : d.WellFormed := by
  intro i hi
  rw [length_of_take? h] at hi
  rw [get?_take? h, List.getElem?_eq_getElem hi, Option.bind_some]
  exact hc _ (hrows _ (List.getElem_mem hi))

end Column

/-! ## Tables -/

namespace Table

/-- Distinct names, and well-formed columns as long as the table has rows. -/
structure WellFormed (t : Table) : Prop where
  nodup_names : t.names.Nodup
  length_eq : ∀ e ∈ t.columns, e.2.length = t.rowCount
  columns : ∀ e ∈ t.columns, e.2.WellFormed

theorem wellFormed_withRows (n : Nat) : (withRows n).WellFormed where
  nodup_names := List.nodup_nil
  length_eq := by simp [withRows]
  columns := by simp [withRows]

theorem mem_of_column? {t : Table} {name : String} {c : Column} (h : t.column? name = some c) :
    (name, c) ∈ t.columns :=
  mem_of_lookup h

theorem column?_eq_none_iff {t : Table} {name : String} :
    t.column? name = none ↔ name ∉ t.names := by
  unfold column? names
  rw [List.lookup_eq_none_iff]
  simp only [List.mem_map, not_exists, not_and, bne_iff_ne, ne_eq]
  constructor
  · intro h e he hname
    exact h e he hname.symm
  · intro h e he hname
    exact h e he hname.symm

theorem WellFormed.column {t : Table} (ht : t.WellFormed) {name : String} {c : Column}
    (h : t.column? name = some c) : c.WellFormed ∧ c.length = t.rowCount :=
  ⟨ht.columns _ (mem_of_column? h), ht.length_eq _ (mem_of_column? h)⟩

/-! ### Adding and replacing columns -/

/-- What adding a column succeeds in. -/
theorem add_eq_ok {t u : Table} {name : String} {c : Column} (h : t.add name c = .ok u) :
    name ∉ t.names ∧ (t.columns ≠ [] → c.length = t.rowCount) ∧
      u = ⟨t.columns ++ [(name, c)], if t.columns.isEmpty then c.length else t.rowCount⟩ := by
  unfold add at h
  by_cases hname : (t.column? name).isSome = true
  · simp [hname] at h
    cases h
  · have hnew : name ∉ t.names := by
      rw [← column?_eq_none_iff]
      simpa using hname
    simp only [hname] at h
    unfold checkLength at h
    by_cases hlen : (!t.columns.isEmpty && c.length != t.rowCount) = true
    · simp only [hlen] at h
      cases h
    · simp only [hlen] at h
      obtain rfl := Except.ok.inj h
      refine ⟨hnew, fun hne => ?_, rfl⟩
      simpa [List.isEmpty_iff, hne] using hlen

theorem WellFormed.add {t u : Table} (ht : t.WellFormed) {name : String} {c : Column}
    (hc : c.WellFormed) (h : t.add name c = .ok u) : u.WellFormed := by
  obtain ⟨hname, hlen, rfl⟩ := add_eq_ok h
  refine ⟨?_, ?_, ?_⟩
  · show ((t.columns ++ [(name, c)]).map (·.1)).Nodup
    rw [List.map_append]
    refine List.nodup_append.2 ⟨ht.nodup_names, by simp, ?_⟩
    rintro a ha b hb rfl
    obtain rfl : a = name := by simpa using hb
    exact hname ha
  · intro e he
    by_cases hempty : t.columns = []
    · obtain rfl : e = (name, c) := by simpa [hempty] using he
      simp [hempty]
    · have hrows : (if t.columns.isEmpty then c.length else t.rowCount) = t.rowCount := by
        simp [hempty]
      show e.2.length = (if t.columns.isEmpty then c.length else t.rowCount)
      rw [hrows]
      rcases List.mem_append.1 he with he | he
      · exact ht.length_eq e he
      · obtain rfl : e = (name, c) := by simpa using he
        exact hlen hempty
  · intro e he
    rcases List.mem_append.1 he with he | he
    · exact ht.columns e he
    · obtain rfl : e = (name, c) := by simpa using he
      exact hc

theorem rowCount_of_add {t u : Table} {name : String} {c : Column} (h : t.add name c = .ok u)
    (hc : c.length = t.rowCount) : u.rowCount = t.rowCount := by
  obtain ⟨-, -, rfl⟩ := add_eq_ok h
  show (if t.columns.isEmpty then c.length else t.rowCount) = t.rowCount
  rw [hc, ite_self]

/-- What replacing a column succeeds in. -/
theorem set_eq_ok {t u : Table} {name : String} {c : Column} (h : t.set name c = .ok u) :
    t.add name c = .ok u ∨
      name ∈ t.names ∧ (t.columns.length ≠ 1 → c.length = t.rowCount) ∧
        u = ⟨t.columns.map fun e => if e.1 == name then (name, c) else e,
          if t.columns.length == 1 then c.length else t.rowCount⟩ := by
  unfold set at h
  by_cases hname : (t.column? name).isSome = true
  · right
    have hmem : name ∈ t.names := by
      by_contra hno
      rw [← column?_eq_none_iff] at hno
      simp [hno] at hname
    simp only [hname, if_true] at h
    have hne : t.columns ≠ [] := by
      rintro hnil
      simp [names, hnil] at hmem
    by_cases halone : (t.columns.length == 1) = true
    · simp only [halone] at h
      obtain rfl := Except.ok.inj h
      refine ⟨hmem, fun hlen => absurd (eq_of_beq halone) hlen, ?_⟩
      simp [halone]
    · simp only [halone] at h
      unfold checkLength at h
      by_cases hlen : (!t.columns.isEmpty && c.length != t.rowCount) = true
      · simp only [hlen] at h
        cases h
      · simp only [hlen] at h
        obtain rfl := Except.ok.inj h
        refine ⟨hmem, fun _ => ?_, ?_⟩
        · simpa [List.isEmpty_iff, hne] using hlen
        · simp [halone]
  · left
    simpa [hname] using h

theorem WellFormed.set {t u : Table} (ht : t.WellFormed) {name : String} {c : Column}
    (hc : c.WellFormed) (h : t.set name c = .ok u) : u.WellFormed := by
  rcases set_eq_ok h with hadd | ⟨hname, hlen, rfl⟩
  · exact ht.add hc hadd
  have hnames : (t.columns.map fun e => if e.1 == name then (name, c) else e).map (·.1)
      = t.columns.map (·.1) := by
    rw [List.map_map]
    refine List.map_congr_left fun e _ => ?_
    simp only [Function.comp_apply]
    split
    next heq => exact (eq_of_beq heq).symm
    next => rfl
  refine ⟨?_, ?_, ?_⟩
  · show ((t.columns.map fun e => if e.1 == name then (name, c) else e).map (·.1)).Nodup
    rw [hnames]
    exact ht.nodup_names
  · intro e he
    obtain ⟨d, hd, rfl⟩ := List.mem_map.1 he
    show _ = (if t.columns.length == 1 then c.length else t.rowCount)
    by_cases halone : t.columns.length = 1
    · obtain ⟨a, ha⟩ := List.length_eq_one_iff.1 halone
      have hda : d = a := by simpa [ha] using hd
      have haname : name = a.1 := by simpa [names, ha] using hname
      simp [hda, haname, halone]
    · have hrows : (if t.columns.length == 1 then c.length else t.rowCount) = t.rowCount := by
        simp [halone]
      rw [hrows]
      split
      · exact hlen halone
      · exact ht.length_eq d hd
  · intro e he
    obtain ⟨d, hd, rfl⟩ := List.mem_map.1 he
    split
    · exact hc
    · exact ht.columns d hd

theorem rowCount_of_set {t u : Table} {name : String} {c : Column} (h : t.set name c = .ok u)
    (hc : c.length = t.rowCount) : u.rowCount = t.rowCount := by
  rcases set_eq_ok h with hadd | ⟨-, -, rfl⟩
  · exact rowCount_of_add hadd hc
  · show (if t.columns.length == 1 then c.length else t.rowCount) = t.rowCount
    rw [hc, ite_self]

/-- A column as long as the table has rows can be added under a new name. -/
theorem exists_add {t : Table} {name : String} {c : Column} (hname : name ∉ t.names)
    (hc : c.length = t.rowCount) : ∃ u, t.add name c = .ok u := by
  have hnone : (t.column? name).isSome = false := by
    rw [column?_eq_none_iff.2 hname]
    rfl
  have hlength : (!t.columns.isEmpty && c.length != t.rowCount) = false := by
    rw [hc]
    simp
  unfold add checkLength
  rw [hnone, hlength]
  exact ⟨_, rfl⟩

/-- A column as long as the table has rows can be set under any name. -/
theorem exists_set {t : Table} {name : String} {c : Column} (hc : c.length = t.rowCount) :
    ∃ u, t.set name c = .ok u := by
  have hlength : (!t.columns.isEmpty && c.length != t.rowCount) = false := by
    rw [hc]
    simp
  unfold set
  by_cases hname : (t.column? name).isSome = true
  · rw [if_pos hname]
    unfold checkLength
    rw [hlength]
    cases t.columns.length == 1 <;> exact ⟨_, rfl⟩
  · rw [if_neg hname]
    refine exists_add ?_ hc
    rw [← column?_eq_none_iff, ← Option.not_isSome_iff_eq_none]
    exact hname

/-- The column that was added is there, beside those that were. -/
theorem column?_of_add {t u : Table} {name : String} {c : Column} (h : t.add name c = .ok u)
    (other : String) : u.column? other = if other = name then some c else t.column? other := by
  obtain ⟨hname, -, rfl⟩ := add_eq_ok h
  show (t.columns ++ [(name, c)]).lookup other = _
  rw [List.lookup_append]
  by_cases hother : other = name
  · have hnone : t.columns.lookup name = none := column?_eq_none_iff.2 hname
    rw [if_pos hother, hother, hnone]
    simp
  · have hnone : List.lookup other [(name, c)] = none := by simp [hother]
    rw [if_neg hother, hnone, Option.or_none]
    rfl

theorem lookup_replaced (columns : List (String × Column)) (name : String) (c : Column)
    (other : String) :
    (columns.map fun e => if e.1 == name then (name, c) else e).lookup other
      = if other = name then (columns.lookup name).map fun _ => c else columns.lookup other := by
  induction columns with
  | nil => simp
  | cons e columns ih =>
    obtain ⟨first, d⟩ := e
    by_cases hfirst : first = name
    · subst hfirst
      by_cases hother : other = first
      · simp [hother]
      · have hbeq : (other == first) = false := beq_eq_false_iff_ne.2 hother
        simp only [List.map_cons, beq_self_eq_true, if_true, List.lookup_cons, hbeq, ih,
          if_neg hother]
    · have hbeq : (first == name) = false := beq_eq_false_iff_ne.2 hfirst
      by_cases hother : other = name
      · subst hother
        have hfirst' : (other == first) = false := beq_eq_false_iff_ne.2 fun h => hfirst h.symm
        simp only [List.map_cons, hbeq, Bool.false_eq_true, if_false, List.lookup_cons, hfirst', ih,
          if_true]
      · simp only [List.map_cons, hbeq, Bool.false_eq_true, if_false, List.lookup_cons, ih,
          if_neg hother]

/-- The column that was set is there, beside the others that were. -/
theorem column?_of_set {t u : Table} {name : String} {c : Column} (h : t.set name c = .ok u)
    (other : String) : u.column? other = if other = name then some c else t.column? other := by
  rcases set_eq_ok h with hadd | ⟨hname, -, rfl⟩
  · exact column?_of_add hadd other
  · show List.lookup other _ = _
    rw [lookup_replaced]
    split
    next =>
      obtain ⟨d, hd⟩ := Option.ne_none_iff_exists'.1 (mt column?_eq_none_iff.1 (not_not.2 hname))
      have hlookup : t.columns.lookup name = some d := hd
      rw [hlookup]
      rfl
    next => rfl

theorem names_of_add {t u : Table} {name : String} {c : Column} (h : t.add name c = .ok u) :
    u.names = t.names ++ [name] := by
  obtain ⟨-, -, rfl⟩ := add_eq_ok h
  exact List.map_append

/-- Setting a column adds its name if it is new. -/
theorem names_of_set {t u : Table} {name : String} {c : Column} (h : t.set name c = .ok u) :
    u.names = if name ∈ t.names then t.names else t.names ++ [name] := by
  rcases set_eq_ok h with hadd | ⟨hname, -, rfl⟩
  · rw [if_neg (add_eq_ok hadd).1, names_of_add hadd]
  · rw [if_pos hname]
    show (t.columns.map fun e => if e.1 == name then (name, c) else e).map (·.1) = t.names
    rw [List.map_map]
    refine List.map_congr_left fun e _ => ?_
    rw [Function.comp_apply]
    split
    next heq => exact (beq_iff_eq.1 heq).symm
    next => rfl

/-! ### Choosing columns and copying rows -/

/-- Chosen columns keep the rows of the table. -/
theorem WellFormed.project {t u : Table} (ht : t.WellFormed) {columns : List (String × String)}
    (h : t.project columns = .ok u) : u.WellFormed ∧ u.rowCount = t.rowCount := by
  refine foldlM_except_keeps (fun u : Table => u.WellFormed ∧ u.rowCount = t.rowCount) ?_
    ⟨wellFormed_withRows t.rowCount, rfl⟩ h
  rintro b ⟨old, new⟩ b' - ⟨hb, hrows⟩ hstep
  cases hc : t.column? old with
  | none =>
    rw [hc] at hstep
    cases hstep
  | some c =>
    rw [hc] at hstep
    obtain ⟨hwf, hlen⟩ := ht.column hc
    refine ⟨hb.add hwf hstep, ?_⟩
    rw [rowCount_of_add hstep (by rw [hlen, hrows]), hrows]

theorem take?_eq_some {t u : Table} {rows : List Nat} (h : t.take? rows = some u) :
    (t.columns.mapM fun e => (e.2.take? rows).map (e.1, ·)) = some u.columns ∧
      u.rowCount = rows.length := by
  obtain ⟨columns, hcolumns, h⟩ := Option.bind_eq_some_iff.1 h
  obtain rfl := Option.some.inj h
  exact ⟨hcolumns, rfl⟩

/-- Copied rows stand under the names of the table. -/
theorem names_of_take? {t u : Table} {rows : List Nat} (h : t.take? rows = some u) :
    u.names = t.names := by
  have hcolumns := (take?_eq_some h).1
  have hmap := congrArg (List.map fun e : Option (String × Column) => e.map (·.1))
    (mapM_eq_some_iff.1 hcolumns)
  rw [List.map_map, List.map_map] at hmap
  have hall : ∀ e ∈ t.columns, ((fun e : Option (String × Column) => e.map (·.1)) ∘
      fun e : String × Column => (e.2.take? rows).map (e.1, ·)) e = some e.1 := by
    intro e he
    obtain ⟨d, -, hd⟩ := exists_of_mapM hcolumns he
    obtain ⟨c, hc, -⟩ := Option.map_eq_some_iff.1 hd
    simp [hc]
  rw [List.map_congr_left hall] at hmap
  have hsome : (u.columns.map (·.1)).map some = (t.columns.map (·.1)).map some := by
    rw [List.map_map, List.map_map]
    exact hmap.symm
  exact List.map_injective_iff.2 (fun _ _ h => Option.some.inj h) hsome

theorem WellFormed.of_take? {t u : Table} (ht : t.WellFormed) {rows : List Nat}
    (hrows : ∀ row ∈ rows, row < t.rowCount) (h : t.take? rows = some u) : u.WellFormed := by
  obtain ⟨hcolumns, hcount⟩ := take?_eq_some h
  have hcopy : ∀ e ∈ u.columns, ∃ d ∈ t.columns, d.2.take? rows = some e.2 := by
    intro e he
    obtain ⟨d, hd, hde⟩ := mem_of_mapM hcolumns he
    obtain ⟨c, hc, rfl⟩ := Option.map_eq_some_iff.1 hde
    exact ⟨d, hd, hc⟩
  refine ⟨?_, ?_, ?_⟩
  · rw [names_of_take? h]
    exact ht.nodup_names
  · intro e he
    obtain ⟨d, -, hde⟩ := hcopy e he
    rw [Column.length_of_take? hde, hcount]
  · intro e he
    obtain ⟨d, hd, hde⟩ := hcopy e he
    refine (ht.columns d hd).of_take? (fun row hrow => ?_) hde
    rw [ht.length_eq d hd]
    exact hrows row hrow

theorem WellFormed.take? {t : Table} (ht : t.WellFormed) {rows : List Nat}
    (hrows : ∀ row ∈ rows, row < t.rowCount) : ∃ u, t.take? rows = some u := by
  obtain ⟨columns, hcolumns⟩ := exists_mapM (fun e => (e.2.take? rows).map (e.1, ·)) t.columns
    fun e he => by
      have hlt : ∀ row ∈ rows, row < e.2.length := fun row hrow => by
        rw [ht.length_eq e he]
        exact hrows row hrow
      obtain ⟨d, hd⟩ := (ht.columns e he).take? hlt
      exact ⟨(e.1, d), by rw [hd]; rfl⟩
  exact ⟨⟨columns, rows.length⟩, by rw [Table.take?, hcolumns]; rfl⟩

/-! ### Building tables -/

theorem wellFormed_ofColumns {columns : List (String × Column)} {t : Table}
    (hcolumns : ∀ e ∈ columns, e.2.WellFormed) (h : ofColumns columns = .ok t) :
    t.WellFormed :=
  foldlM_except_keeps WellFormed (fun _ e _ he hb hstep => hb.add (hcolumns e he) hstep)
    (wellFormed_withRows 0) h

theorem wellFormed_ofValues (columns : List (String × List Value)) {t : Table}
    (h : ofValues columns = .ok t) : t.WellFormed := by
  refine wellFormed_ofColumns (fun e he => ?_) h
  obtain ⟨d, -, rfl⟩ := List.mem_map.1 he
  exact Column.wellFormed_ofValues d.2

end Table

theorem ColumnKind.wellFormed_encode (kind : ColumnKind) (cells : List Value) :
    (kind.encode cells).WellFormed := by
  cases kind with
  | any => exact Column.wellFormed_ofValues cells
  | number => exact Column.wellFormed_ofFloatOptions _
  | text => exact Column.wellFormed_ofTextOptions _

theorem TableBuilder.wellFormed_finish {b : TableBuilder} {t : Table} (h : b.finish = .ok t) :
    t.WellFormed :=
  foldlM_except_keeps Table.WellFormed
    (fun _ e _ _ hb hstep => hb.add (e.1.2.wellFormed_encode _) hstep)
    (Table.wellFormed_withRows _) h

end ColumnQuery
