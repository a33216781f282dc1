/-
  Overlays that fit their table.

  A view is sound, with a key for every row, if its table is well formed, its filter and its
  sort keys are as long as the table, and its groups are those of the visible rows by key. The
  verbs come down to a few changes of a view: other columns over the same rows (`withData`),
  another filter (`withFilter`, `keepRows`), new groups or a new order, copied rows
  (`takeRows`), and a fresh table. Each change keeps the view sound; copying rows carries the
  keys along.
-/
import ColumnQuery.Proofs.Overlay.Grouping
import ColumnQuery.Proofs.Overlay.RowOrder
import ColumnQuery.Proofs.Table
import ColumnQuery.View.Arrangement
import ColumnQuery.View.SetAlgebra

namespace ColumnQuery

theorem QueryError.ofRead_eq_ok {α : Type} {r : Option α} {a : α}
    (h : QueryError.ofRead r = .ok a) : r = some a := by
  cases r with
  | none => cases h
  | some b => exact congrArg some (Except.ok.inj h)

theorem QueryError.ofTable_eq_ok {α : Type} {r : Except TableError α} {a : α}
    (h : QueryError.ofTable r = .ok a) : r = .ok a := by
  cases r with
  | error e => cases h
  | ok b => exact congrArg Except.ok (Except.ok.inj h)

namespace View

/-- The filter lets the row through. -/
def shows (v : View) (row : Nat) : Bool :=
  match v.filter with
  | some f => f.contains row
  | none => true

/-- Overlays that fit the table, with the key of every row by which it is grouped. -/
structure Sound (v : View) (key : RowKey) : Prop where
  table : v.data.WellFormed
  filter : ∀ f, v.filter = some f → f.WellFormed ∧ f.length = v.totalRows
  order : ∀ o, v.order = some o → o.Covers v.totalRows
  groups : ∀ g, v.groups = some g → g.Groups v.totalRows key v.shows

variable {v w : View} {key : RowKey}

/-! ## Visible rows -/

theorem Sound.mem_visible (hv : v.Sound key) (row : Nat) :
    row ∈ v.visible ↔ row < v.totalRows ∧ v.shows row = true := by
  unfold visible shows
  cases hf : v.filter with
  | none => simp
  | some f =>
    obtain ⟨hwf, hlen⟩ := hv.filter f hf
    simp only []
    rw [hwf.mem_toList, ← hlen]
    exact ⟨fun h => ⟨hwf.lt_length row h, h⟩, fun h => h.2⟩

theorem Sound.lt_of_visible (hv : v.Sound key) {row : Nat} (h : row ∈ v.visible) :
    row < v.totalRows :=
  ((hv.mem_visible row).1 h).1

theorem Sound.pairwise_visible (hv : v.Sound key) : v.visible.Pairwise (· < ·) := by
  unfold visible
  cases hf : v.filter with
  | none => exact List.pairwise_lt_range
  | some f => exact (hv.filter f hf).1.pairwise_toList

theorem Sound.nodup_visible (hv : v.Sound key) : v.visible.Nodup :=
  hv.pairwise_visible.imp fun hlt => Nat.ne_of_lt hlt

/-- Sorting the visible rows succeeds and only puts them in another order. -/
theorem Sound.exists_sorted (hv : v.Sound key) :
    ∃ rows, v.sorted = some rows ∧ rows.Perm v.visible := by
  unfold sorted
  cases ho : v.order with
  | none => exact ⟨v.visible, rfl, List.Perm.refl _⟩
  | some o =>
    refine ⟨o.sort v.visible, ?_, o.perm_sort v.visible⟩
    exact (hv.order o ho).sort?_eq fun row hrow => hv.lt_of_visible hrow

theorem perm_of_sorted {rows : List Nat} (h : v.sorted = some rows) : rows.Perm v.visible := by
  unfold sorted at h
  cases ho : v.order with
  | none =>
    rw [ho] at h
    exact (Option.some.inj h) ▸ List.Perm.refl _
  | some o =>
    rw [ho] at h
    rw [RowOrder.eq_sort_of_sort? h]
    exact o.perm_sort v.visible

theorem Sound.lt_of_sorted (hv : v.Sound key) {rows : List Nat} (h : v.sorted = some rows)
    {row : Nat} (hrow : row ∈ rows) : row < v.totalRows :=
  hv.lt_of_visible ((perm_of_sorted h).mem_iff.1 hrow)

/-! ## Changes of a view -/

theorem sound_ofTable {t : Table} (ht : t.WellFormed) (key : RowKey) : (ofTable t).Sound key where
  table := ht
  filter _ h := by cases h
  order _ h := by cases h
  groups _ h := by cases h

theorem sound_fresh (v : View) {t : Table} (ht : t.WellFormed) (key : RowKey) :
    (v.fresh t).Sound key where
  table := ht
  filter _ h := by cases h
  order _ h := by cases h
  groups _ h := by cases h

/-- Other columns over the same rows. -/
theorem Sound.withData (hv : v.Sound key) {t : Table} (ht : t.WellFormed)
    (hrows : t.rowCount = v.totalRows) : (v.withData t).Sound key where
  table := ht
  filter f hf := by
    obtain ⟨hwf, hlen⟩ := hv.filter f hf
    exact ⟨hwf, hlen.trans hrows.symm⟩
  order o ho := by
    show o.Covers t.rowCount
    rw [hrows]
    exact hv.order o ho
  groups g hg := by
    show g.Groups t.rowCount key v.shows
    rw [hrows]
    exact hv.groups g hg

/-- As many rows come in the same order. -/
theorem sorted_withData {t : Table} (hrows : t.rowCount = v.totalRows) :
    (v.withData t).sorted = v.sorted := by
  have hfilter : (v.withData t).filter = v.filter := rfl
  have horder : (v.withData t).order = v.order := rfl
  have htotal : (v.withData t).totalRows = v.totalRows := hrows
  unfold sorted visible
  rw [hfilter, horder, htotal]

/-- A new filter narrows the groups that are there. -/
theorem Sound.withFilter (hv : v.Sound key) {f : BitSet} (hf : f.WellFormed)
    (hlen : f.length = v.totalRows) : (v.withFilter f).Sound key where
  table := hv.table
  filter e he := by
    obtain rfl : f = e := Option.some.inj he
    exact ⟨hf, hlen⟩
  order := hv.order
  groups g hg := by
    obtain ⟨old, hold, rfl⟩ := Option.map_eq_some_iff.1 hg
    exact Grouping.groups_narrow (hv.groups old hold).whole f

/-- Without a filter every row has its group again. -/
theorem Sound.withoutFilter (hv : v.Sound key) : v.withoutFilter.Sound key where
  table := hv.table
  filter _ h := by cases h
  order := hv.order
  groups g hg := by
    obtain ⟨old, hold, rfl⟩ := Option.map_eq_some_iff.1 hg
    refine (Grouping.groups_narrow (hv.groups old hold).whole (.full v.data.rowCount)).congr ?_
    intro row hrow
    rw [BitSet.contains_full]
    exact decide_eq_true hrow

/-- New groups, by keys of their own. -/
theorem Sound.withGroups (hv : v.Sound key) {g : Grouping} {newKey : RowKey}
    (hg : g.Groups v.totalRows newKey v.shows) : (v.withGroups g).Sound newKey where
  table := hv.table
  filter := hv.filter
  order := hv.order
  groups h hh := by
    obtain rfl : g = h := Option.some.inj hh
    exact hg

theorem Sound.withOrder (hv : v.Sound key) {o : RowOrder} (ho : o.Covers v.totalRows) :
    (v.withOrder o).Sound key where
  table := hv.table
  filter := hv.filter
  order p hp := by
    obtain rfl : o = p := Option.some.inj hp
    exact ho
  groups := hv.groups

theorem Sound.ungroup (hv : v.Sound key) : v.ungroup.Sound key where
  table := hv.table
  filter := hv.filter
  order := hv.order
  groups _ h := by cases h

theorem Sound.unorder (hv : v.Sound key) : v.unorder.Sound key where
  table := hv.table
  filter := hv.filter
  order _ h := by cases h
  groups := hv.groups

theorem Sound.addParams (hv : v.Sound key) (values : List (String × Value)) :
    (v.addParams values).Sound key where
  table := hv.table
  filter := hv.filter
  order := hv.order
  groups := hv.groups

theorem takeRows_eq_some {rows : List Nat} (h : v.takeRows rows = some w) :
    ∃ data groups, v.data.take? rows = some data ∧
      (v.groups.mapM fun g => g.take? rows) = some groups ∧
      w = ⟨data, none, groups, none, v.params⟩ := by
  obtain ⟨data, hdata, h⟩ := Option.bind_eq_some_iff.1 h
  obtain ⟨groups, hgroups, h⟩ := Option.bind_eq_some_iff.1 h
  exact ⟨data, groups, hdata, hgroups, (Option.some.inj h).symm⟩

/-- Copied rows keep the keys of the rows that they are copies of. -/
theorem Sound.of_takeRows (hv : v.Sound key) {rows : List Nat}
    (hrows : ∀ row ∈ rows, row < v.totalRows) (h : v.takeRows rows = some w) :
    w.Sound (fun i => rows[i]?.bind key) := by
  obtain ⟨data, groups, hdata, hgroups, rfl⟩ := takeRows_eq_some h
  refine ⟨hv.table.of_take? hrows hdata, fun f hf => ?_, fun o ho => ?_, ?_⟩
  · cases hf
  · cases ho
  intro g hg
  have hcount : data.rowCount = rows.length := (Table.take?_eq_some hdata).2
  cases hold : v.groups with
  | none =>
    rw [hold] at hgroups
    obtain rfl : none = groups := Option.some.inj hgroups
    cases hg
  | some old =>
    rw [hold] at hgroups
    obtain ⟨copy, hcopy, hsome⟩ := Option.map_eq_some_iff.1 hgroups
    obtain rfl : some copy = groups := hsome
    obtain rfl : copy = g := Option.some.inj hg
    show copy.Groups data.rowCount _ _
    rw [hcount]
    exact Grouping.groups_take? (hv.groups old hold).whole hcopy

theorem totalRows_of_takeRows {rows : List Nat} (h : v.takeRows rows = some w) :
    w.totalRows = rows.length := by
  obtain ⟨data, groups, hdata, -, rfl⟩ := takeRows_eq_some h
  exact (Table.take?_eq_some hdata).2

/-! ## Copying rows -/

theorem reify_eq_some (h : v.reify = some w) :
    ((v.filter.isNone && v.order.isNone) = true ∧ w = v) ∨
      ((v.filter.isNone && v.order.isNone) = false ∧
        ∃ rows copy order, v.sorted = some rows ∧ v.takeRows rows = some copy ∧
          (v.order.mapM fun o => o.take? rows) = some order ∧
          w = { copy with order := order }) := by
  unfold reify at h
  split at h
  next hnone => exact .inl ⟨hnone, (Option.some.inj h).symm⟩
  next hsome =>
    obtain ⟨rows, hrows, h⟩ := Option.bind_eq_some_iff.1 h
    obtain ⟨copy, hcopy, h⟩ := Option.bind_eq_some_iff.1 h
    obtain ⟨order, horder, h⟩ := Option.bind_eq_some_iff.1 h
    exact .inr ⟨Bool.eq_false_iff.2 hsome, rows, copy, order, hrows, hcopy, horder,
      (Option.some.inj h).symm⟩

/-- The keys of the rows of a copy that `reify` makes. -/
def reifiedKey (v : View) (key : RowKey) : RowKey :=
  if v.filter.isNone && v.order.isNone then key
  else fun i => (v.sorted.getD [])[i]?.bind key

theorem Sound.of_reify (hv : v.Sound key) (h : v.reify = some w) :
    w.Sound (v.reifiedKey key) := by
  unfold reifiedKey
  rcases reify_eq_some h with ⟨hnone, rfl⟩ | ⟨hsome, rows, copy, order, hrows, hcopy, horder, rfl⟩
  · rw [if_pos hnone]
    exact hv
  · rw [if_neg (by rw [hsome]; exact Bool.false_ne_true), hrows, Option.getD_some]
    have hcopySound := hv.of_takeRows (fun row hrow => hv.lt_of_sorted hrows hrow) hcopy
    have hcount : copy.totalRows = rows.length := totalRows_of_takeRows hcopy
    refine ⟨hcopySound.table, hcopySound.filter, fun o ho => ?_, hcopySound.groups⟩
    show o.Covers copy.totalRows
    rw [hcount]
    cases hold : v.order with
    | none =>
      rw [hold] at horder
      obtain rfl : none = order := Option.some.inj horder
      cases ho
    | some old =>
      rw [hold] at horder
      obtain ⟨taken, htaken, hsome⟩ := Option.map_eq_some_iff.1 horder
      obtain rfl : some taken = order := hsome
      obtain rfl : taken = o := Option.some.inj ho
      exact RowOrder.covers_take? htaken

theorem Sound.of_reifyRows (hv : v.Sound key) {rows : List Nat}
    (h : v.reifyRows rows = .ok w) : w.Sound (fun i => rows[i]?.bind key) := by
  unfold reifyRows at h
  cases hfind : rows.find? (v.totalRows ≤ ·) with
  | some row =>
    rw [hfind] at h
    cases h
  | none =>
    rw [hfind] at h
    have hall := List.find?_eq_none.1 hfind
    refine hv.of_takeRows (fun row hrow => ?_) (QueryError.ofRead_eq_ok h)
    have := hall row hrow
    simpa using this

/-! ## Hiding rows -/

theorem Sound.of_keepRows (hv : v.Sound key) {rows : List Nat} (h : v.keepRows rows = .ok w) :
    w.Sound key := by
  obtain ⟨f, hf, rfl⟩ := Option.map_eq_some_iff.1 (QueryError.ofRead_eq_ok h)
  obtain ⟨hwf, hlen, -⟩ := BitSet.ofIndices?_spec hf
  exact hv.withFilter hwf hlen

theorem Sound.of_filterBy (hv : v.Sound key) {p : ExprSpec} (h : v.filterBy p = .ok w) :
    w.Sound key := by
  obtain ⟨r, -, h⟩ := bind_eq_ok h
  obtain ⟨rows, -, h⟩ := bind_eq_ok h
  exact hv.of_keepRows h

theorem Sound.of_slice (hv : v.Sound key) {start : Int} {stop : Option Int}
    (h : v.slice start stop = .ok w) : w.Sound key := by
  obtain ⟨parts, -, h⟩ := bind_eq_ok h
  exact hv.of_keepRows h

theorem Sound.of_dedupe (hv : v.Sound key) {names : List String} (h : v.dedupe names = .ok w) :
    w.Sound key := by
  obtain ⟨columns, -, h⟩ := bind_eq_ok h
  obtain ⟨rows, -, h⟩ := bind_eq_ok h
  exact hv.of_keepRows h

theorem matchedRows_spec {other : View} {c : JoinCondition} {f : BitSet}
    (h : v.matchedRows other c = .ok f) : f.WellFormed ∧ f.length = v.totalRows := by
  obtain ⟨m, -, h⟩ := bind_eq_ok h
  obtain ⟨hwf, hlen, -⟩ := BitSet.ofIndices?_spec (QueryError.ofRead_eq_ok h)
  exact ⟨hwf, hlen⟩

theorem Sound.of_semijoin (hv : v.Sound key) {other : View} {c : JoinCondition}
    (h : v.semijoin other c = .ok w) : w.Sound key := by
  obtain ⟨f, hf, h⟩ := bind_eq_ok h
  obtain rfl := Except.ok.inj h
  obtain ⟨hwf, hlen⟩ := matchedRows_spec hf
  exact hv.withFilter hwf hlen

theorem Sound.of_antijoin (hv : v.Sound key) {other : View} {c : JoinCondition}
    (h : v.antijoin other c = .ok w) : w.Sound key := by
  obtain ⟨f, hf, h⟩ := bind_eq_ok h
  obtain ⟨hwf, hlen⟩ := matchedRows_spec hf
  simp only [] at h
  split at h
  next old hold =>
    obtain ⟨inter, hinter, h⟩ := bind_eq_ok h
    obtain rfl := Except.ok.inj h
    obtain ⟨hlength, rfl⟩ := BitSet.inter?_eq_some_iff.1 (QueryError.ofRead_eq_ok hinter)
    exact hv.withFilter (hwf.complement.inter (hv.filter old hold).1 hlength) hlen
  next =>
    obtain rfl := Except.ok.inj h
    exact hv.withFilter hwf.complement hlen

/-! ## Groups and order -/

theorem Sound.mem_hidden (hv : v.Sound key) {rows : List Nat} (h : v.hidden? = some rows)
    (row : Nat) : row ∈ rows ↔ row < v.totalRows ∧ v.shows row = false := by
  unfold hidden? at h
  unfold shows
  cases hf : v.filter with
  | none =>
    rw [hf] at h
    obtain rfl : [] = rows := Option.some.inj h
    simp
  | some f =>
    rw [hf] at h
    rw [mem_of_filterMapM h row]
    have hitem : ∀ x, ((f.get? x).bind fun shown => some (if shown then none else some x))
        = some (some row) ↔ x = row ∧ f.get? x = some false := by
      intro x
      cases hx : f.get? x with
      | none => simp
      | some b => cases b <;> simp
    have hlen := (hv.filter f hf).2
    constructor
    · rintro ⟨x, hx, hget⟩
      obtain ⟨rfl, hfalse⟩ := (hitem x).1 hget
      exact ⟨List.mem_range.1 hx, (BitSet.get?_eq_some_iff.1 hfalse).2⟩
    · rintro ⟨hrow, hfalse⟩
      refine ⟨row, List.mem_range.2 hrow, (hitem row).2 ⟨rfl, ?_⟩⟩
      exact BitSet.get?_eq_some_iff.2 ⟨by rw [hlen]; exact hrow, hfalse⟩

/-- Visible and hidden rows are all rows. -/
theorem Sound.mem_visible_append_hidden (hv : v.Sound key) {rows : List Nat}
    (h : v.hidden? = some rows) (row : Nat) :
    row ∈ v.visible ++ rows ↔ row < v.totalRows := by
  rw [List.mem_append, hv.mem_visible, hv.mem_hidden h]
  cases v.shows row with
  | false => simp
  | true => simp

/-- The keys by which a view is grouped anew. -/
def groupKey (v : View) (keys : List (String × ExprSpec)) : RowKey :=
  match v.resolve keys .rows with
  | .ok r => Formula.evalKey (r.exprs.map (·.formula))
  | .error _ => fun _ => none

theorem Sound.of_groupByKeys (hv : v.Sound key) {keys : List (String × ExprSpec)}
    (h : v.groupByKeys keys = .ok w) : w.Sound (v.groupKey keys) := by
  unfold groupByKeys at h
  obtain ⟨r, hr, h⟩ := bind_eq_ok h
  have hkey : v.groupKey keys = Formula.evalKey (r.exprs.map (·.formula)) := by
    rw [groupKey, hr]
  obtain ⟨hidden, hhidden, h⟩ := Option.bind_eq_some_iff.1 (QueryError.ofRead_eq_ok h)
  obtain ⟨t, ht, h⟩ := Option.bind_eq_some_iff.1 h
  obtain rfl := Option.some.inj h
  have hbuilt := GroupTable.build?_spec ht
  have hall : t.Numbers v.totalRows (v.groupKey keys) fun _ => true := by
    rw [hkey]
    refine ⟨hbuilt.numbers.keys_size, hbuilt.numbers.values_length, fun row => ?_,
      hbuilt.numbers.value_of, hbuilt.numbers.distinct⟩
    rw [hbuilt.numbers.isSome_groupOf, Bool.and_true, Bool.eq_iff_iff, Bool.and_eq_true,
      decide_eq_true_eq, decide_eq_true_eq, hv.mem_visible_append_hidden hhidden, and_self]
  refine hv.withGroups ?_
  cases hf : v.filter with
  | none =>
    have hleast : t.LeastRows := by
      refine hbuilt.least ?_
      have hnone : hidden = [] := by
        unfold hidden? at hhidden
        rw [hf] at hhidden
        exact (Option.some.inj hhidden).symm
      rw [hnone, List.append_nil]
      exact hv.pairwise_visible
    refine (Grouping.groups_ofTable hall hleast).congr fun row _ => ?_
    simp [shows, hf]
  | some f =>
    have hnarrow := Grouping.groups_narrow (g := .ofTable t) hall f
    refine hnarrow.congr fun row _ => ?_
    simp [shows, hf]

theorem Sound.of_groupBy (hv : v.Sound key) {names : List String}
    (h : v.groupBy names = .ok w) : w.Sound (v.groupKey (names.map fun n => (n, .column n))) :=
  hv.of_groupByKeys h

theorem Sound.of_orderBy (hv : v.Sound key) {keys : List OrderBy} (h : v.orderBy keys = .ok w) :
    w.Sound key := by
  obtain ⟨r, -, h⟩ := bind_eq_ok h
  obtain ⟨o, ho, rfl⟩ := Option.map_eq_some_iff.1 (QueryError.ofRead_eq_ok h)
  exact hv.withOrder (RowOrder.covers_build? ho)

/-! ## Columns -/

/-- Chosen columns of the table keep its rows. -/
theorem arrange_spec {t u : Table} {names : List String} (ht : t.WellFormed)
    (h : arrange t names = .ok u) : u.WellFormed ∧ u.rowCount = t.rowCount :=
  ht.project (QueryError.ofTable_eq_ok h)

/-- Replacing or adding a column of as many cells as the table has rows. -/
theorem set_ofCells_spec {t u : Table} {name : String} {cells : List Value} (ht : t.WellFormed)
    (hcells : cells.length = t.rowCount) (h : t.set name (.ofCells cells) = .ok u) :
    u.WellFormed ∧ u.rowCount = t.rowCount :=
  ⟨ht.set (Column.wellFormed_ofCells cells) h,
    Table.rowCount_of_set h (by rw [Column.length_ofCells, hcells])⟩

theorem setColumn_spec {results : OperatorResults} {t u : Table} {e : NamedFormula}
    (ht : t.WellFormed) (hrows : t.rowCount = v.totalRows)
    (h : v.setColumn results t e = .ok u) : u.WellFormed ∧ u.rowCount = v.totalRows := by
  obtain ⟨cells, hcells, h⟩ := bind_eq_ok h
  have hsize := Formula.size_of_evalRows? (QueryError.ofRead_eq_ok hcells)
  have hlen : cells.toList.length = t.rowCount := by
    rw [Array.length_toList, hsize, hrows]
  obtain ⟨hwf, hcount⟩ := set_ofCells_spec ht hlen (QueryError.ofTable_eq_ok h)
  exact ⟨hwf, hcount.trans hrows⟩

theorem Sound.of_deriveAt (hv : v.Sound key) {exprs : List (String × ExprSpec)} {p : Placement}
    (h : v.deriveAt exprs p = .ok w) : w.Sound key := by
  unfold deriveAt at h
  obtain ⟨r, -, h⟩ := bind_eq_ok h
  obtain ⟨results, -, h⟩ := bind_eq_ok h
  obtain ⟨t, ht, h⟩ := bind_eq_ok h
  obtain ⟨names, -, h⟩ := bind_eq_ok h
  obtain ⟨htwf, htrows⟩ : t.WellFormed ∧ t.rowCount = v.totalRows :=
    foldlM_except_keeps (fun t : Table => t.WellFormed ∧ t.rowCount = v.totalRows)
      (fun b e b' _ hb hstep => setColumn_spec hb.1 hb.2 hstep) ⟨hv.table, rfl⟩ ht
  simp only [] at h
  split at h
  · obtain rfl := Except.ok.inj h
    exact hv.withData htwf htrows
  · obtain ⟨u, hu, h⟩ := bind_eq_ok h
    obtain rfl := Except.ok.inj h
    obtain ⟨huwf, hurows⟩ := arrange_spec htwf hu
    exact hv.withData huwf (hurows.trans htrows)

theorem Sound.of_select (hv : v.Sound key) {names : List String} (h : v.select names = .ok w) :
    w.Sound key := by
  obtain ⟨t, ht, h⟩ := bind_eq_ok h
  obtain rfl := Except.ok.inj h
  obtain ⟨hwf, hrows⟩ := arrange_spec hv.table ht
  exact hv.withData hwf hrows

theorem Sound.of_rename (hv : v.Sound key) {renames : List (String × String)}
    (h : v.rename renames = .ok w) : w.Sound key := by
  obtain ⟨-, -, h⟩ := bind_eq_ok h
  obtain ⟨t, ht, h⟩ := bind_eq_ok h
  obtain rfl := Except.ok.inj h
  obtain ⟨hwf, hrows⟩ := hv.table.project (QueryError.ofTable_eq_ok ht)
  exact hv.withData hwf hrows

theorem Sound.of_relocate (hv : v.Sound key) {names : List String} {p : Placement}
    (h : v.relocate names p = .ok w) : w.Sound key := by
  obtain ⟨-, -, h⟩ := bind_eq_ok h
  obtain ⟨order, -, h⟩ := bind_eq_ok h
  obtain ⟨t, ht, h⟩ := bind_eq_ok h
  obtain rfl := Except.ok.inj h
  obtain ⟨hwf, hrows⟩ := arrange_spec hv.table ht
  exact hv.withData hwf hrows

theorem setLookup_spec {found : List (Option Nat)} {t u : Table} {column : String × Column}
    (ht : t.WellFormed) (hrows : t.rowCount = found.length)
    (h : setLookup found t column = .ok u) : u.WellFormed ∧ u.rowCount = found.length := by
  obtain ⟨cells, hcells, h⟩ := bind_eq_ok h
  have hlen : cells.length = t.rowCount := by
    rw [length_of_mapM (QueryError.ofRead_eq_ok hcells), hrows]
  obtain ⟨hwf, hcount⟩ := set_ofCells_spec ht hlen (QueryError.ofTable_eq_ok h)
  exact ⟨hwf, hcount.trans hrows⟩

theorem Sound.of_lookup (hv : v.Sound key) {other : View} {c : JoinCondition}
    {names : List String} (h : v.lookup other c names = .ok w) : w.Sound key := by
  obtain ⟨columns, -, h⟩ := bind_eq_ok h
  obtain ⟨m, -, h⟩ := bind_eq_ok h
  obtain ⟨found, hfound, h⟩ := bind_eq_ok h
  obtain ⟨t, ht, h⟩ := bind_eq_ok h
  obtain rfl := Except.ok.inj h
  obtain ⟨placed, hplaced, rfl⟩ := Option.map_eq_some_iff.1 (QueryError.ofRead_eq_ok hfound)
  have hlen : placed.toList.length = v.totalRows := by
    rw [Array.length_toList, size_of_placeCells? hplaced, Array.size_replicate]
  obtain ⟨htwf, htrows⟩ : t.WellFormed ∧ t.rowCount = placed.toList.length :=
    foldlM_except_keeps (fun t : Table => t.WellFormed ∧ t.rowCount = placed.toList.length)
      (fun b e b' _ hb hstep => setLookup_spec hb.1 hb.2 hstep) ⟨hv.table, hlen.symm⟩ ht
  exact hv.withData htwf (htrows.trans hlen)

/-! ## Fresh tables -/

theorem sound_of_rollup {exprs : List (String × ExprSpec)} (key : RowKey)
    (h : v.rollup exprs = .ok w) : w.Sound key := by
  unfold rollup at h
  obtain ⟨r, -, h⟩ := bind_eq_ok h
  obtain ⟨results, -, h⟩ := bind_eq_ok h
  obtain ⟨keys, hkeys, h⟩ := bind_eq_ok h
  obtain ⟨t, ht, h⟩ := bind_eq_ok h
  obtain rfl := Except.ok.inj h
  have hkeysWf : keys.WellFormed := by
    unfold keyTable at hkeys
    split at hkeys
    next g _ =>
      refine foldlM_except_keeps Table.WellFormed ?_ (Table.wellFormed_withRows _) hkeys
      intro b e b' _ hb hstep
      exact hb.add (Column.wellFormed_ofCells _) (QueryError.ofTable_eq_ok hstep)
    next =>
      obtain rfl := Except.ok.inj hkeys
      exact Table.wellFormed_withRows 1
  refine sound_fresh v ?_ key
  refine foldlM_except_keeps Table.WellFormed ?_ hkeysWf ht
  intro b e b' _ hb hstep
  obtain ⟨cells, -, hstep⟩ := bind_eq_ok hstep
  exact hb.set (Column.wellFormed_ofCells cells) (QueryError.ofTable_eq_ok hstep)

theorem sound_of_join {other : View} {c : JoinCondition} {columns : JoinColumns}
    {o : JoinOptions} (key : RowKey) (h : v.join other c columns o = .ok w) : w.Sound key := by
  unfold join at h
  obtain ⟨m, -, h⟩ := bind_eq_ok h
  obtain ⟨exprs, -, h⟩ := bind_eq_ok h
  obtain ⟨r, -, h⟩ := bind_eq_ok h
  obtain ⟨found, -, h⟩ := bind_eq_ok h
  obtain ⟨t, ht, h⟩ := bind_eq_ok h
  obtain rfl := Except.ok.inj h
  refine sound_fresh v ?_ key
  refine foldlM_except_keeps Table.WellFormed ?_ (Table.wellFormed_withRows _) ht
  intro b e b' _ hb hstep
  obtain ⟨cells, -, hstep⟩ := bind_eq_ok hstep
  exact hb.set (Column.wellFormed_ofCells cells) (QueryError.ofTable_eq_ok hstep)

theorem sound_of_concat {others : List View} (key : RowKey) (h : v.concat others = .ok w) :
    w.Sound key := by
  unfold concat at h
  obtain ⟨parts, -, h⟩ := bind_eq_ok h
  obtain ⟨t, ht, h⟩ := bind_eq_ok h
  obtain rfl := Except.ok.inj h
  refine sound_fresh v ?_ key
  refine foldlM_except_keeps Table.WellFormed ?_ (Table.wellFormed_withRows _) ht
  intro b e b' _ hb hstep
  obtain ⟨cells, -, hstep⟩ := bind_eq_ok hstep
  exact hb.add (Column.wellFormed_ofCells _) (QueryError.ofTable_eq_ok hstep)

theorem sound_of_union {others : List View} (key : RowKey) (h : v.union others = .ok w) :
    w.Sound key := by
  obtain ⟨stacked, hstacked, h⟩ := bind_eq_ok h
  exact (sound_of_concat key hstacked).of_dedupe h

theorem Sound.of_intersect (hv : v.Sound key) {others : List View}
    (h : v.intersect others = .ok w) : w.Sound key := by
  obtain ⟨first, hfirst, h⟩ := bind_eq_ok h
  exact foldlM_except_keeps (fun w : View => w.Sound key)
    (fun b other b' _ hb hstep => hb.of_semijoin hstep) (hv.of_dedupe hfirst) h

theorem Sound.of_except (hv : v.Sound key) {others : List View}
    (h : v.except others = .ok w) : w.Sound key := by
  obtain ⟨first, hfirst, h⟩ := bind_eq_ok h
  exact foldlM_except_keeps (fun w : View => w.Sound key)
    (fun b other b' _ hb hstep => hb.of_antijoin hstep) (hv.of_dedupe hfirst) h

end View

end ColumnQuery
