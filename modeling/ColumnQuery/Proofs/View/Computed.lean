/-
  The cells of computed columns.

  Expressions become columns one after the other, each as long as the table, so none of them is
  refused; of several expressions under one name the last one stays (`foldlM_setCells`). A
  derived column holds the value of its expression at every visible row (`derive_spec`), a
  column of a roll-up its value at every group (`rollup_spec`); of a call alone these are the
  results of the call (`derive_op`, `rollup_op`). A roll-up fails only if two group keys have the
  same name (`exists_keyTable`).
-/
import ColumnQuery.Proofs.Formula.Allowed
import ColumnQuery.Proofs.View.Aggregates

namespace ColumnQuery

/-- The cell of a named column; none if there is no such column or row. -/
def Table.valueAt? (t : Table) (name : String) (row : Nat) : Option Value :=
  (t.column? name).bind (·.get? row)

/-! ## Columns set one after the other -/

/-- The last of several expressions under a name. -/
def lastNamed? (es : List NamedFormula) (name : String) : Option NamedFormula :=
  es.reverse.find? (·.name == name)

theorem lastNamed?_cons (e : NamedFormula) (es : List NamedFormula) (name : String) :
    lastNamed? (e :: es) name
      = (lastNamed? es name).or (if e.name == name then some e else none) := by
  unfold lastNamed?
  rw [List.reverse_cons, List.find?_append, List.find?_singleton]

theorem mem_of_lastNamed? {es : List NamedFormula} {name : String} {e : NamedFormula}
    (h : lastNamed? es name = some e) : e ∈ es :=
  List.mem_reverse.1 (List.mem_of_find?_eq_some h)

theorem lastNamed?_singleton (e : NamedFormula) : lastNamed? [e] e.name = some e := by
  unfold lastNamed?
  simp

/-- Where all names differ, the last expression under a name is the one. -/
theorem lastNamed?_of_nodup {es : List NamedFormula} (hnames : (es.map (·.name)).Nodup)
    {e : NamedFormula} (he : e ∈ es) : lastNamed? es e.name = some e := by
  induction es with
  | nil => cases he
  | cons d es ih =>
    obtain ⟨hnew, hrest⟩ := List.nodup_cons.1 hnames
    rw [lastNamed?_cons]
    rcases List.mem_cons.1 he with rfl | he
    · have hnone : lastNamed? es e.name = none := by
        cases hlast : lastNamed? es e.name with
        | none => rfl
        | some last =>
          have hname := List.find?_some hlast
          exact absurd (List.mem_map.2 ⟨last, mem_of_lastNamed? hlast, eq_of_beq hname⟩) hnew
      rw [hnone, if_pos (beq_self_eq_true e.name)]
      rfl
    · rw [ih hrest he]
      rfl

/-- Every name that is given to an expression has a last expression. -/
theorem exists_lastNamed? {es : List NamedFormula} {name : String}
    (h : name ∈ es.map (·.name)) : ∃ e, lastNamed? es name = some e := by
  obtain ⟨e, he, hname⟩ := List.mem_map.1 h
  cases hlast : lastNamed? es name with
  | some last => exact ⟨last, rfl⟩
  | none =>
    have hno := List.find?_eq_none.1 hlast e (List.mem_reverse.2 he)
    rw [hname] at hno
    exact absurd (beq_self_eq_true name) hno

/-- Sets the column of an expression, given its cells. -/
def setCells (cells : NamedFormula → Option (List Value)) (t : Table) (e : NamedFormula) :
    Except QueryError Table := do
  QueryError.ofTable (t.set e.name (.ofCells (← QueryError.ofRead (cells e))))

theorem setCells_spec {cells : NamedFormula → Option (List Value)} {t : Table} {e : NamedFormula}
    {values : List Value} (hcells : cells e = some values) (hlength : values.length = t.rowCount) :
    ∃ u, setCells cells t e = .ok u ∧ u.rowCount = t.rowCount ∧
      ∀ name, u.column? name
        = if name = e.name then some (.ofCells values) else t.column? name := by
  have hc : (Column.ofCells values).length = t.rowCount := by
    rw [Column.length_ofCells, hlength]
  have hset : ∃ u, t.set e.name (.ofCells values) = .ok u := Table.exists_set hc
  obtain ⟨u, hu⟩ := hset
  refine ⟨u, ?_, Table.rowCount_of_set hu hc, Table.column?_of_set hu⟩
  unfold setCells
  rw [hcells]
  show QueryError.ofTable (t.set e.name (.ofCells values)) = _
  rw [hu]
  rfl

/-- Expressions with as many cells as there are rows all become columns; of those under one name
    the last one stays. -/
theorem foldlM_setCells_columns {cells : NamedFormula → Option (List Value)}
    (es : List NamedFormula) (t : Table)
    (hcells : ∀ e ∈ es, ∃ values, cells e = some values ∧ values.length = t.rowCount) :
    ∃ u, es.foldlM (setCells cells) t = .ok u ∧ u.rowCount = t.rowCount ∧
      ∀ name, u.column? name = match lastNamed? es name with
        | some e => (cells e).map .ofCells
        | none => t.column? name := by
  induction es generalizing t with
  | nil => exact ⟨t, rfl, rfl, fun _ => rfl⟩
  | cons e es ih =>
    obtain ⟨⟨values, hvalues, hlength⟩, hrest⟩ := List.forall_mem_cons.1 hcells
    obtain ⟨next, hnext, hcount, hcolumn⟩ := setCells_spec hvalues hlength
    obtain ⟨u, hu, hrows, hspec⟩ := ih next fun d hd => by
      rw [hcount]
      exact hrest d hd
    refine ⟨u, ?_, hrows.trans hcount, fun name => ?_⟩
    · rw [List.foldlM_cons, hnext]
      exact hu
    · rw [hspec, lastNamed?_cons]
      cases lastNamed? es name with
      | some last => rfl
      | none =>
        simp only [Option.none_or]
        rw [hcolumn]
        by_cases hname : name = e.name
        · rw [if_pos hname, if_pos (beq_iff_eq.2 hname.symm)]
          simp [hvalues]
        · have hbeq : (e.name == name) = false := beq_eq_false_iff_ne.2 fun h => hname h.symm
          rw [if_neg hname, hbeq]
          rfl

/-- The columns set in this way, cell by cell. -/
theorem foldlM_setCells {cells : NamedFormula → Option (List Value)} (es : List NamedFormula)
    (t : Table)
    (hcells : ∀ e ∈ es, ∃ values, cells e = some values ∧ values.length = t.rowCount) :
    ∃ u, es.foldlM (setCells cells) t = .ok u ∧ u.rowCount = t.rowCount ∧
      ∀ name row, u.valueAt? name row = match lastNamed? es name with
        | some e => (cells e).bind (·[row]?)
        | none => t.valueAt? name row := by
  obtain ⟨u, hu, hrows, hspec⟩ := foldlM_setCells_columns es t hcells
  refine ⟨u, hu, hrows, fun name row => ?_⟩
  unfold Table.valueAt?
  rw [hspec]
  cases lastNamed? es name with
  | none => rfl
  | some e =>
    cases hvalues : cells e with
    | none => simp only [hvalues, Option.map_none, Option.bind_none]
    | some values => simp only [hvalues, Option.map_some, Option.bind_some, Column.get?_ofCells]

/-- Expressions that have become columns have cells. -/
theorem cells_of_foldlM_setCells {cells : NamedFormula → Option (List Value)}
    {es : List NamedFormula} {t u : Table} (h : es.foldlM (setCells cells) t = .ok u) :
    ∀ e ∈ es, ∃ values, cells e = some values := by
  induction es generalizing t with
  | nil => simp
  | cons e es ih =>
    rw [List.foldlM_cons] at h
    obtain ⟨next, hnext, h⟩ := bind_eq_ok h
    obtain ⟨values, hvalues, -⟩ := bind_eq_ok hnext
    exact List.forall_mem_cons.2 ⟨⟨values, QueryError.ofRead_eq_ok hvalues⟩, ih h⟩

namespace View

variable {v w : View} {key : RowKey} {exprs : List (String × ExprSpec)} {r : Resolution}
  {results : OperatorResults}

/-! ## Results of calls -/

theorem operators_eq {aggregates : List (List Value)} {windows : List (Array Value)}
    (haggregates : v.aggregates r.aggregates = some aggregates)
    (hwindows : v.windows r.windows = some windows) (group : Nat → Option Nat) :
    v.operators r group = some ⟨aggregates, windows, group⟩ := by
  unfold operators
  rw [haggregates, hwindows]
  rfl

theorem read_aggregate {r : OperatorResults} {n row g : Nat} {cells : List Value} {x : Value}
    (hcells : r.aggregates[n]? = some cells) (hgroup : r.group row = some g)
    (hx : cells[g]? = some x) : r.read (.aggregate n) row = x := by
  unfold OperatorResults.read
  simp only [hcells, hgroup, hx, Option.bind_eq_bind, Option.bind_some]
  rfl

theorem read_window {r : OperatorResults} {n row : Nat} {cells : Array Value} {x : Value}
    (hcells : r.windows[n]? = some cells) (hx : cells[row]? = some x) :
    r.read (.window n) row = x := by
  unfold OperatorResults.read
  simp only [hcells, hx, Option.bind_eq_bind, Option.bind_some]
  rfl

/-! ## Derived columns -/

theorem setColumn_eq (v : View) (results : OperatorResults) :
    v.setColumn results = setCells fun e =>
      (e.formula.evalRows? results.lookup v.visible v.totalRows).map (·.toList) := by
  funext t e
  unfold setColumn setCells
  dsimp only
  cases e.formula.evalRows? results.lookup v.visible v.totalRows <;> rfl

/-- The cells of an expression are its values at the visible rows. -/
theorem Sound.exists_rowCells (hv : v.Sound key) {f : Formula} (results : OperatorResults)
    (hvalue : ∀ row ∈ v.visible, ∃ x, f.evalRow results.lookup row = some x) :
    ∃ values : List Value,
      (f.evalRows? results.lookup v.visible v.totalRows).map (·.toList) = some values ∧
      values.length = v.data.rowCount ∧
      ∀ row ∈ v.visible, values[row]? = f.evalRow results.lookup row := by
  obtain ⟨out, hout, hspec⟩ := Formula.evalRows?_spec hv.nodup_visible
    (fun row hrow => hv.lt_of_visible hrow) hvalue
  refine ⟨out.toList, by rw [hout]; rfl, ?_, fun row hrow => ?_⟩
  · rw [Array.length_toList, Formula.size_of_evalRows? hout]
    rfl
  · rw [Array.getElem?_toList]
    exact hspec row hrow

/-- Without a placement the columns stay where they are set. -/
theorem derive_eq_ok (hr : v.resolve exprs .derive = .ok r)
    (hresults : v.operators r v.groupOf = some results) {t : Table}
    (ht : r.exprs.foldlM (v.setColumn results) v.data = .ok t) :
    v.derive exprs = .ok (v.withData t) := by
  unfold derive deriveAt
  rw [hr]
  show (QueryError.ofRead (v.operators r v.groupOf) >>= _) = _
  rw [hresults]
  show (r.exprs.foldlM (v.setColumn results) v.data >>= _) = _
  rw [ht]
  show (if t.names = t.names then Except.ok (v.withData t) else _) = _
  rw [if_pos rfl]

/-- A derived column holds the value of its expression at every visible row; the other columns
    are left alone. -/
theorem Sound.derive_spec (hv : v.Sound key) (hr : v.resolve exprs .derive = .ok r)
    (hresults : v.operators r v.groupOf = some results)
    (hvalue : ∀ e ∈ r.exprs, ∀ row ∈ v.visible,
      ∃ x, e.formula.evalRow results.lookup row = some x) :
    ∃ w, v.derive exprs = .ok w ∧ ∀ row ∈ v.visible, ∀ name,
      w.data.valueAt? name row = match lastNamed? r.exprs name with
        | some e => e.formula.evalRow results.lookup row
        | none => v.data.valueAt? name row := by
  obtain ⟨t, ht, -, hspec⟩ := foldlM_setCells r.exprs v.data fun e he => by
    obtain ⟨values, hvalues, hlength, -⟩ := hv.exists_rowCells results (hvalue e he)
    exact ⟨values, hvalues, hlength⟩
  refine ⟨v.withData t, derive_eq_ok hr hresults (by rw [setColumn_eq]; exact ht),
    fun row hrow name => ?_⟩
  show t.valueAt? name row = _
  rw [hspec]
  cases hlast : lastNamed? r.exprs name with
  | none => rfl
  | some e =>
    obtain ⟨values, hvalues, -, hrows⟩ :=
      hv.exists_rowCells results (hvalue e (mem_of_lastNamed? hlast))
    dsimp only
    rw [hvalues, ← hrows row hrow]
    rfl

/-- A column derived from a call alone holds the results of the call. -/
theorem Sound.derive_op (hv : v.Sound key) {name : String} {e : ExprSpec} {ref : OpRef}
    {tree : Option Node} (hr : v.resolve [(name, e)] .derive = .ok r)
    (hexprs : r.exprs = [⟨name, .op ref, tree⟩])
    (hresults : v.operators r v.groupOf = some results) : ∃ w, v.derive [(name, e)] = .ok w ∧
      ∀ row ∈ v.visible, w.data.valueAt? name row = some (results.read ref row) := by
  have hvalue : ∀ d ∈ r.exprs, ∀ row ∈ v.visible,
      ∃ x, d.formula.evalRow results.lookup row = some x := by
    intro d hd row _
    rw [hexprs, List.mem_singleton] at hd
    subst hd
    exact ⟨results.read ref row, rfl⟩
  obtain ⟨w, hw, hcell⟩ := hv.derive_spec hr hresults hvalue
  refine ⟨w, hw, fun row hrow => ?_⟩
  rw [hcell row hrow name, hexprs, lastNamed?_singleton ⟨name, .op ref, tree⟩]
  rfl

/-! ## Columns of a roll-up -/

theorem setGroupColumn_eq (groups : Nat) (results : OperatorResults) :
    setGroupColumn groups results = setCells fun e =>
      (List.range groups).mapM (e.formula.evalRow results.lookup) := by
  funext t e
  rfl

/-- The column of a key has a cell for every group. -/
theorem length_keyColumn (g : GroupTable) (k : Nat) : (keyColumn g k).length = g.size := by
  unfold keyColumn
  rw [Column.length_ofCells, List.length_map, List.length_range]

/-- The cell of a group holds the value of its key. -/
theorem get?_keyColumn {groups : GroupTable} {g : Nat} (hg : g < groups.size) (k : Nat) :
    (keyColumn groups k).get? g
      = some ((groups.values[g]?.bind fun key => key[k]?).getD .null) := by
  unfold keyColumn
  rw [Column.get?_ofCells, List.getElem?_map, List.getElem?_range hg]
  rfl

/-- The table of the group keys has a row for every group. -/
theorem rowCount_of_keyTable {t : Table} (h : v.keyTable = .ok t) : t.rowCount = v.groupCount := by
  unfold keyTable at h
  unfold groupCount
  cases hg : v.groups with
  | none =>
    rw [hg] at h
    obtain rfl := Except.ok.inj h
    rfl
  | some g =>
    rw [hg] at h
    refine foldlM_except_keeps (fun t : Table => t.rowCount = g.shown.size) ?_ rfl h
    rintro t ⟨name, k⟩ u - ht hstep
    exact (Table.rowCount_of_add (QueryError.ofTable_eq_ok hstep)
      ((length_keyColumn g.shown k).trans ht.symm)).trans ht

/-- Key columns can be added if the names of the columns that are there and of the keys to come are
    all different. -/
theorem exists_addKeys {g : GroupTable} {names : List String} {first : Nat} {t : Table}
    (hnodup : (t.names ++ names).Nodup) (hcount : t.rowCount = g.size) :
    ∃ u, (names.zipIdx first).foldlM (fun t (name, k) =>
      QueryError.ofTable (t.add name (keyColumn g k))) t = .ok u := by
  induction names generalizing first t with
  | nil => exact ⟨t, rfl⟩
  | cons name names ih =>
    have hnew : name ∉ t.names := fun hmem =>
      (List.nodup_append.1 hnodup).2.2 name hmem name List.mem_cons_self rfl
    have hlength : (keyColumn g first).length = t.rowCount :=
      (length_keyColumn g first).trans hcount.symm
    obtain ⟨next, hnext⟩ := Table.exists_add hnew hlength
    obtain ⟨-, -, heq⟩ := Table.add_eq_ok hnext
    have hnextNames : next.names = t.names ++ [name] := by
      rw [heq]
      exact List.map_append
    obtain ⟨u, hu⟩ := ih (t := next)
      (by rwa [hnextNames, List.append_assoc, List.singleton_append])
      ((Table.rowCount_of_add hnext hlength).trans hcount)
    refine ⟨u, ?_⟩
    rw [List.zipIdx_cons, List.foldlM_cons]
    simp only [hnext]
    exact hu

/-- There is such a table if the keys have different names. -/
theorem exists_keyTable (hnames : ∀ g, v.groups = some g → g.shown.names.Nodup) :
    ∃ t, v.keyTable = .ok t := by
  unfold keyTable
  cases hg : v.groups with
  | none => exact ⟨_, rfl⟩
  | some g => exact exists_addKeys (t := .withRows g.shown.size) (hnames g hg) rfl

/-- A roll-up begins with the table of the keys. -/
theorem exists_keyTable_of_rollup (h : v.rollup exprs = .ok w) : ∃ t, v.keyTable = .ok t := by
  obtain ⟨_, -, h⟩ := bind_eq_ok h
  obtain ⟨_, -, h⟩ := bind_eq_ok h
  obtain ⟨t, ht, -⟩ := bind_eq_ok h
  exact ⟨t, ht⟩

/-- A column of a roll-up holds the value of its expression at every group. -/
theorem rollup_spec (hr : v.resolve exprs .rollup = .ok r)
    (hresults : v.operators r some = some results) {keys : Table} (hkeys : v.keyTable = .ok keys)
    (hvalue : ∀ e ∈ r.exprs, ∀ g < v.groupCount,
      ∃ x, e.formula.evalRow results.lookup g = some x) :
    ∃ w, v.rollup exprs = .ok w ∧ w.totalRows = v.groupCount ∧
      ∀ g < v.groupCount, ∀ name e, lastNamed? r.exprs name = some e →
        w.data.valueAt? name g = e.formula.evalRow results.lookup g := by
  have hcells : ∀ e ∈ r.exprs, ∃ values,
      (List.range v.groupCount).mapM (e.formula.evalRow results.lookup) = some values ∧
        values.length = keys.rowCount := by
    intro e he
    obtain ⟨values, hvalues⟩ := exists_mapM _ (List.range v.groupCount) fun g hg =>
      hvalue e he g (List.mem_range.1 hg)
    refine ⟨values, hvalues, ?_⟩
    rw [length_of_mapM hvalues, List.length_range, rowCount_of_keyTable hkeys]
  obtain ⟨t, ht, hcount, hspec⟩ := foldlM_setCells r.exprs keys hcells
  refine ⟨v.fresh t, ?_, hcount.trans (rowCount_of_keyTable hkeys), fun g hg name e hlast => ?_⟩
  · have hfold : r.exprs.foldlM (setGroupColumn v.groupCount results) keys = .ok t := by
      rw [setGroupColumn_eq]
      exact ht
    unfold rollup
    rw [hr]
    show (QueryError.ofRead (v.operators r some) >>= _) = _
    rw [hresults]
    show (v.keyTable >>= _) = _
    rw [hkeys]
    show (r.exprs.foldlM (setGroupColumn v.groupCount results) keys >>= _) = _
    rw [hfold]
    rfl
  · obtain ⟨values, hvalues, -⟩ := hcells e (mem_of_lastNamed? hlast)
    show t.valueAt? name g = _
    rw [hspec, hlast]
    dsimp only
    rw [hvalues, Option.bind_some, getElem?_of_mapM hvalues g, List.getElem?_range hg]
    rfl

/-- A column rolled up from a call alone holds the results of the call. -/
theorem rollup_op {name : String} {e : ExprSpec} {ref : OpRef} {tree : Option Node}
    (hr : v.resolve [(name, e)] .rollup = .ok r) (hexprs : r.exprs = [⟨name, .op ref, tree⟩])
    (hresults : v.operators r some = some results) {keys : Table} (hkeys : v.keyTable = .ok keys) :
    ∃ w, v.rollup [(name, e)] = .ok w ∧
      ∀ g < v.groupCount, w.data.valueAt? name g = some (results.read ref g) := by
  have hvalue : ∀ d ∈ r.exprs, ∀ g < v.groupCount,
      ∃ x, d.formula.evalRow results.lookup g = some x := by
    intro d hd g _
    rw [hexprs, List.mem_singleton] at hd
    subst hd
    exact ⟨results.read ref g, rfl⟩
  obtain ⟨w, hw, -, hcell⟩ := rollup_spec hr hresults hkeys hvalue
  refine ⟨w, hw, fun g hg => ?_⟩
  have hlast : lastNamed? r.exprs name = some ⟨name, .op ref, tree⟩ := by
    rw [hexprs]
    exact lastNamed?_singleton ⟨name, .op ref, tree⟩
  rw [hcell g hg name _ hlast]
  rfl

end View

end ColumnQuery
