/-
  The row of a group in a roll-up.

  A roll-up evaluates its expressions with the number of the group in the place of a row. What is
  written as an expression reads no column there, only the results of aggregates, and these see
  the rows of the group alone. So two groups with the same keys and the same cells, in whatever
  tables and under whatever numbers they stand, have the same row (`SameGroup.rollup_eq`), and no
  row outside the table is read.

  Escaped functions are the exception. They are asked at the row of the table that has the number
  of the group, whichever group this row is in, or whether there is such a row at all. A roll-up
  goes through exactly if they answer there (`Sound.rollup_isOk_iff`), and its rows are those of
  the groups as far as they answer alike (`rollup_own_group`).
-/
import ColumnQuery.Proofs.Formula.WellFormed
import ColumnQuery.Proofs.Mirror.Basic
import ColumnQuery.Proofs.View.Dictionaries

namespace ColumnQuery

/-! ## Escaped functions -/

theorem Formula.eval_escape (f : EscapedFunction) (tables : List Table) (params : Params)
    (env : Env) : (Formula.escape f tables params).eval env = f ⟨tables, env.position⟩ params := by
  rw [Formula.eval, Formula.evalWith]
  cases f ⟨tables, env.position⟩ params <;> rfl

namespace Resolve

variable {ctx : ResolveContext}

/-- An expression resolves to the function that it escapes to, or to a formula that reads what the
    options allow. -/
def ResolvesTo (ctx : ResolveContext) (e : ExprSpec) (f : Formula) : Prop :=
  match e.escaped? with
  | some g => f = .escape g ctx.tables ctx.params
  | none => Reads ctx false f

theorem resolvesTo_of_spec {frame : Option Frame} {e : ExprSpec} {s t : ResolveState}
    {r : Formula × Option Node} (h : (spec ctx frame e).run s = .ok (r, t)) :
    ResolvesTo ctx e r.1 := by
  unfold ResolvesTo
  rcases escape_or_reads_of_spec h with ⟨g, hg, hr⟩ | ⟨hnone, hreads⟩
  · rw [hg]
    exact hr
  · rw [hnone]
    exact hreads

/-- Given results of operators, an expression has a value at a row of the tables exactly if the
    function answers there that it escapes to; without one it has a value. -/
theorem ResolvesTo.exists_eval_iff {e : ExprSpec} {f : Formula} (hf : ResolvesTo ctx e f)
    (env : Env) (htables : ∀ table ∈ ctx.tables, table.WellFormed)
    (hrows : ctx.options.aggregateOnly = false → Formula.Within ctx.tables env.position)
    (hops : ∀ ref row, (env.results ref row).isSome) : (∃ a, f.eval env = some a) ↔
      ∀ escaped ∈ e.escaped?, ∃ a, escaped ⟨ctx.tables, env.position⟩ ctx.params = some a := by
  unfold ResolvesTo at hf
  cases he : e.escaped? with
  | some escaped =>
    rw [he] at hf
    obtain rfl : f = .escape escaped ctx.tables ctx.params := hf
    rw [Formula.eval_escape]
    exact ⟨fun ha _ hescaped => Option.some.inj hescaped ▸ ha, fun ha => ha escaped rfl⟩
  | none =>
    rw [he] at hf
    have hreads : Reads ctx false f := hf
    exact iff_of_true (hreads.exists_eval htables hrows hops) nofun

end Resolve

theorem resolvesTo_of_resolve {ctx : ResolveContext} {exprs : List (String × ExprSpec)}
    {r : Resolution} (h : resolve ctx exprs = .ok r) :
    List.Forall₂ (fun e d => Resolve.ResolvesTo ctx e.2 d.formula) exprs r.exprs := by
  exact forall₂_of_resolve (fun _ _ _ _ _ => Resolve.resolvesTo_of_spec) h

namespace View

variable {v w x y : View} {key key' : RowKey} {g h : Nat} {exprs : List (String × ExprSpec)}
  {r r' : Resolution} {results results' : OperatorResults} {pairs : List (Nat × Nat)}

/-! ## Roll-ups that go through -/

/-- The steps of a roll-up. -/
theorem rollup_eq_ok (hx : v.rollup exprs = .ok x) :
    ∃ r results keys t, v.resolve exprs .rollup = .ok r ∧ v.operators r some = some results ∧
      v.keyTable = .ok keys ∧
      r.exprs.foldlM (setGroupColumn v.groupCount results) keys = .ok t ∧ x = v.fresh t := by
  obtain ⟨r, hr, hx⟩ := bind_eq_ok hx
  obtain ⟨results, hresults, hx⟩ := bind_eq_ok hx
  obtain ⟨keys, hkeys, hx⟩ := bind_eq_ok hx
  obtain ⟨t, ht, hx⟩ := bind_eq_ok hx
  exact ⟨r, results, keys, t, hr, QueryError.ofRead_eq_ok hresults, hkeys, ht,
    (Except.ok.inj hx).symm⟩

/-- A roll-up has no window calls. -/
theorem windows_of_rollup (hr : v.resolve exprs .rollup = .ok r) :
    v.windows r.windows = some [] := by
  rw [(wellFormed_of_resolve hr).windows_allowed rfl]
  rfl

/-- All escaped functions answer at a number of a group. -/
def EscapesAnswer (v : View) (exprs : List (String × ExprSpec)) (g : Nat) : Prop :=
  ∀ e ∈ exprs, ∀ f ∈ e.2.escaped?, ∃ a, f ⟨[v.data], .row g⟩ v.params = some a

/-- An expression over groups has a value at a group exactly if the function answers there that it
    escapes to; without one it has a value anywhere. -/
theorem Sound.exists_evalRow_iff (hv : v.Sound key) {e : ExprSpec} {f : Formula}
    (hf : Resolve.ResolvesTo ⟨[v.data], v.params, .rollup⟩ e f) (results : OperatorResults) :
    (∃ a, f.evalRow results.lookup g = some a) ↔
      ∀ escaped ∈ e.escaped?, ∃ a, escaped ⟨[v.data], .row g⟩ v.params = some a :=
  hf.exists_eval_iff ⟨.row g, results.lookup⟩ (List.forall_mem_singleton.2 hv.table) nofun
    fun _ _ => rfl

/-- Given keys with different names, a roll-up of expressions that resolve goes through exactly if
    the escaped functions answer at every number of a group. -/
theorem Sound.rollup_isOk_iff (hv : v.Sound key) (hr : v.resolve exprs .rollup = .ok r)
    (hnames : ∀ groups, v.groups = some groups → groups.shown.names.Nodup) :
    (∃ x, v.rollup exprs = .ok x) ↔ ∀ g < v.groupCount, v.EscapesAnswer exprs g := by
  have hresolved := resolvesTo_of_resolve hr
  constructor
  · rintro ⟨x, hx⟩ g hg e he
    obtain ⟨r', results, keys, t, hr', -, -, ht, -⟩ := rollup_eq_ok hx
    obtain rfl := Except.ok.inj (hr.symm.trans hr')
    obtain ⟨d, hd, hto⟩ := exists_of_forall₂ hresolved he
    rw [setGroupColumn_eq] at ht
    obtain ⟨values, hvalues⟩ := cells_of_foldlM_setCells ht d hd
    obtain ⟨a, -, ha⟩ := exists_of_mapM hvalues (List.mem_range.2 hg)
    exact (hv.exists_evalRow_iff hto results).1 ⟨a, ha⟩
  · intro hanswer
    obtain ⟨-, aggregates, -, haggregates, -⟩ := hv.aggregates_cells (registered_of_resolve hr)
    obtain ⟨keys, hkeys⟩ := exists_keyTable hnames
    obtain ⟨x, hx, -⟩ := rollup_spec hr
      (operators_eq haggregates (windows_of_rollup hr) some) hkeys fun d hd g hg => by
        obtain ⟨e, he, hto⟩ := exists_of_forall₂ hresolved.flip hd
        exact (hv.exists_evalRow_iff hto _).2 (hanswer g hg e he)
    exact ⟨x, hx⟩

/-- A roll-up has a row for every group. -/
theorem totalRows_of_rollup (hx : v.rollup exprs = .ok x) : x.totalRows = v.groupCount := by
  obtain ⟨r, results, keys, t, -, -, hkeys, ht, rfl⟩ := rollup_eq_ok hx
  refine foldlM_except_keeps (fun t : Table => t.rowCount = v.groupCount)
    (fun t e u _ htable hstep => ?_) (rowCount_of_keyTable hkeys) ht
  obtain ⟨cells, hcells, hstep⟩ := bind_eq_ok hstep
  have hlength : (Column.ofCells cells).length = t.rowCount := by
    rw [Column.length_ofCells, length_of_mapM (QueryError.ofRead_eq_ok hcells), List.length_range,
      htable]
  exact (Table.rowCount_of_set (QueryError.ofTable_eq_ok hstep) hlength).trans htable

/-! ## Groups with the same rows -/

/-- The cells of the visible rows of a group, in order. -/
def groupCells (v : View) (g : Nat) : Option (List (List Value)) := do
  (v.groupRows (← v.sorted) g).mapM v.cellsOf

/-- Groups with the same keys and the same cells, in views with columns of the same names and
    under the same parameters. -/
structure SameGroup (v : View) (g : Nat) (w : View) (h : Nat) : Prop where
  params : v.params = w.params
  names : v.data.names = w.data.names
  keys : v.groups.map (fun groups => (groups.shown.names, groups.shown.values[g]?))
    = w.groups.map fun groups => (groups.shown.names, groups.shown.values[h]?)
  cells : v.groupCells g = w.groupCells h

/-- Tables with the same names hold the same cells in rows that are the same. -/
theorem alongside_of_cellsOf (hnames : v.data.names = w.data.names)
    (hcells : ∀ p ∈ pairs, ∃ cells, v.cellsOf p.1 = some cells ∧ w.cellsOf p.2 = some cells) :
    v.data.Alongside (Column.SameCells pairs) w.data := by
  have hrows : ∀ p ∈ pairs,
      v.data.columns.map (·.2.get? p.1) = w.data.columns.map (·.2.get? p.2) := by
    intro p hp
    obtain ⟨cells, hcells, hcells'⟩ := hcells p hp
    rw [mapM_eq_some_iff.1 hcells, mapM_eq_some_iff.1 hcells']
  unfold Table.names at hnames
  unfold Table.Alongside
  generalize v.data.columns = cs, w.data.columns = cs' at hnames hrows
  induction cs generalizing cs' with
  | nil =>
    obtain rfl := List.map_eq_nil_iff.1 hnames.symm
    exact .nil
  | cons e cs ih =>
    cases cs' with
    | nil => cases hnames
    | cons e' cs' =>
      obtain ⟨hname, hnames⟩ := List.cons.inj hnames
      exact .cons ⟨hname, fun p hp => (List.cons.inj (hrows p hp)).1⟩
        (ih cs' hnames fun p hp => (List.cons.inj (hrows p hp)).2)

/-- The rows of the groups in pairs. -/
theorem SameGroup.exists_pairs (hsame : v.SameGroup g w h) (hv : v.Sound key) (hw : w.Sound key') :
    ∃ rows rows' pairs, v.sorted = some rows ∧ w.sorted = some rows' ∧
      v.groupRows rows g = pairs.map (·.1) ∧ w.groupRows rows' h = pairs.map (·.2) ∧
      (∀ p ∈ pairs, p.1 < v.totalRows ∧ p.2 < w.totalRows) ∧
      v.data.Alongside (Column.SameCells pairs) w.data := by
  obtain ⟨rows, hrows, -⟩ := hv.exists_sorted
  obtain ⟨rows', hrows', -⟩ := hw.exists_sorted
  have hlt : ∀ row ∈ v.groupRows rows g, row < v.totalRows := fun row hrow =>
    hv.lt_of_sorted hrows (List.mem_filter.1 hrow).1
  have hlt' : ∀ row ∈ w.groupRows rows' h, row < w.totalRows := fun row hrow =>
    hw.lt_of_sorted hrows' (List.mem_filter.1 hrow).1
  obtain ⟨cells, hcells⟩ := exists_mapM v.cellsOf (v.groupRows rows g) fun row hrow =>
    hv.exists_cellsOf (hlt row hrow)
  have hcells' : (w.groupRows rows' h).mapM w.cellsOf = some cells := by
    have heq := hsame.cells
    unfold groupCells at heq
    rw [hrows, hrows'] at heq
    exact heq.symm.trans hcells
  have hlength : (v.groupRows rows g).length = (w.groupRows rows' h).length := by
    rw [← length_of_mapM hcells, ← length_of_mapM hcells']
  refine ⟨rows, rows', (v.groupRows rows g).zip (w.groupRows rows' h), hrows, hrows',
    (List.map_fst_zip (Nat.le_of_eq hlength)).symm,
    (List.map_snd_zip (Nat.le_of_eq hlength.symm)).symm, fun p hp => ?_,
    alongside_of_cellsOf hsame.names fun p hp => ?_⟩
  · exact ⟨hlt _ (List.of_mem_zip hp).1, hlt' _ (List.of_mem_zip hp).2⟩
  · obtain ⟨i, hi⟩ := List.mem_iff_getElem?.1 hp
    obtain ⟨hleft, hright⟩ := List.getElem?_zip_eq_some.1 hi
    obtain ⟨c, hc, hrow⟩ := exists_of_mapM hcells (List.of_mem_zip hp).1
    have hat := getElem?_of_mapM hcells i
    have hat' := getElem?_of_mapM hcells' i
    rw [hleft, Option.bind_some, hrow] at hat
    rw [hright, Option.bind_some, hat] at hat'
    exact ⟨c, hrow, hat'.symm⟩

/-! ## Expressions over groups -/

/-- Rows that correspond in the arguments of aggregates; outside of them only results are read.
    Dictionaries need not have the same words. -/
def groupwise (pairs : List (Nat × Nat)) : Comparison :=
  { mirroring pairs true with leftLacks := True, rightLacks := True }

/-- Outside of operators both sides stand at the numbers of their groups. -/
def groupwiseAt (pairs : List (Nat × Nat)) (g h : Nat) : Comparison :=
  { groupwise pairs with
    envs := fun inOperator env env' => (groupwise pairs).envs inOperator env env' ∧
      (inOperator = false → env.position = .row g ∧ env'.position = .row h) }

theorem narrows_groupwiseAt (pairs : List (Nat × Nat)) (g h : Nat) :
    (groupwiseAt pairs g h).Narrows (groupwise pairs) where
  operators := by
    funext env env'
    exact propext ⟨And.left, fun he => ⟨he, nofun⟩⟩
  rows _ _ he := he.1

theorem rowsCorrespond_groupwiseAt (pairs : List (Nat × Nat)) (g h : Nat) :
    RowsCorrespond (groupwiseAt pairs g h) pairs :=
  fun p hp => ⟨rowsCorrespond_mirroring pairs true p hp, nofun⟩

theorem counterparts_groupwise {t t' : Table} (ht : t.WellCoded) (ht' : t'.WellCoded)
    (hrows : ∀ p ∈ pairs, p.1 < t.rowCount ∧ p.2 < t'.rowCount)
    (hcells : t.Alongside (Column.SameCells pairs) t') (params : Params) :
    Resolve.Counterparts (groupwise pairs) ⟨[t], params, .rollup⟩ ⟨[t'], params, .rollup⟩ where
  params := rfl
  options := rfl
  tables := rfl
  absent _ := ⟨fun _ => ⟨.none, rfl⟩, fun _ _ => rfl⟩
  results _ _ he := he.2 rfl
  columns n table table' hn hn' inOperator hplace name := by
    obtain ⟨rfl, rfl⟩ : 0 = n ∧ t = table := by
      cases n with
      | zero => exact ⟨rfl, Option.some.inj hn⟩
      | succ n => cases hn
    obtain rfl : t' = table' := Option.some.inj hn'
    refine Table.rel_column? hcells.names fun c c' hc hc' => ?_
    refine ⟨fun env env' he => ?_, fun _ _ => .inr trivial, fun _ _ => .inr trivial⟩
    have hcolumn := hcells.column? name
    rw [hc, hc'] at hcolumn
    cases hcolumn with
    | some hsame =>
      have hleft := (he.1 hplace).1
      show c.Alike env.position.left c' env'.position.left
      generalize env.position.left = i, env'.position.left = j at hleft
      cases hleft with
      | none => exact Column.alike_none c c'
      | some hp =>
        obtain ⟨hlt, hlt'⟩ := hrows _ hp
        refine Column.alike_of_cells (ht.readable hc fun i hi => ?_)
          (ht'.readable hc' fun i hi => ?_) (.some (hsame _ hp))
        · exact Option.some.inj hi ▸ hlt
        · exact Option.some.inj hi ▸ hlt'

/-- What the expressions of a roll-up read at a group: what the rows of the group answer. -/
theorem Sound.read_group (hv : v.Sound key) (hr : v.resolve exprs .rollup = .ok r)
    (hresults : v.operators r some = some results) {rows : List Nat}
    (hrows : v.sorted = some rows) (hg : g < v.groupCount) :
    ∃ answers, groupAnswers r.aggregates (v.groupRows rows g) = some answers ∧
      (∀ n < r.aggregates.length,
        results.read (.aggregate n) g = .ofOption (answers.lookup n)) ∧
      (∀ n, r.aggregates.length ≤ n → results.read (.aggregate n) g = .null) ∧
      ∀ n, results.read (.window n) g = .null := by
  obtain ⟨rows', aggregates, hrows', haggregates, hlength, hcells⟩ :=
    hv.aggregates_cells (registered_of_resolve hr)
  obtain rfl := Option.some.inj (hrows.symm.trans hrows')
  obtain rfl := Option.some.inj
    ((operators_eq haggregates (windows_of_rollup hr) some).symm.trans hresults)
  obtain ⟨answers, hanswers, hcells⟩ := hcells g hg
  refine ⟨answers, hanswers, fun n hn => ?_, fun n hn => ?_, fun n => ?_⟩
  · obtain ⟨cells, hn', hx⟩ := hcells n hn
    exact read_aggregate hn' rfl hx
  · exact read_aggregate_of_le (hlength ▸ hn) g
  · exact read_window_of_le (Nat.zero_le n) g

/-- Results are the same at groups whose rows correspond. -/
theorem read_of_groupRows (hv : v.Sound key) (hw : w.Sound key')
    (hr : v.resolve exprs .rollup = .ok r) (hr' : w.resolve exprs .rollup = .ok r')
    (hsame : Resolve.SameResolution (groupwiseAt pairs g h) r r')
    (hresults : v.operators r some = some results)
    (hresults' : w.operators r' some = some results') {rows rows' : List Nat}
    (hrows : v.sorted = some rows) (hrows' : w.sorted = some rows')
    (hpairs : v.groupRows rows g = pairs.map (·.1))
    (hpairs' : w.groupRows rows' h = pairs.map (·.2)) (hg : g < v.groupCount)
    (hh : h < w.groupCount) (ref : OpRef) : results.read ref g = results'.read ref h := by
  obtain ⟨answers, hanswers, hread, hnull, hwindow⟩ := hv.read_group hr hresults hrows hg
  obtain ⟨answers', hanswers', hread', hnull', hwindow'⟩ := hw.read_group hr' hresults' hrows' hh
  have hlength := hsame.aggregates.length_eq
  rw [hpairs, groupAnswers_pairs (rowsCorrespond_groupwiseAt pairs g h) hsame.aggregates,
    ← hpairs', hanswers'] at hanswers
  obtain rfl := Option.some.inj hanswers
  cases ref with
  | window n => rw [hwindow, hwindow']
  | aggregate n =>
    by_cases hn : n < r.aggregates.length
    · rw [hread n hn, hread' n (hlength ▸ hn)]
    · have hle := Nat.le_of_not_lt hn
      rw [hnull n hle, hnull' n (hlength ▸ hle)]

/-- Formulas that read the same results have the same values at their groups. -/
theorem evalRow_of_sameNamed {d d' : NamedFormula}
    (hd : Resolve.SameNamed (groupwiseAt pairs g h) d d')
    (hread : ∀ ref, results.read ref g = results'.read ref h) :
    d.formula.evalRow results.lookup g = d'.formula.evalRow results'.lookup h :=
  hd.formula.eval ⟨⟨nofun, fun _ ref => congrArg some (hread ref)⟩, fun _ => ⟨rfl, rfl⟩⟩

/-! ## Tables of groups -/

/-- The same cell at two groups. -/
def SameCellAt (g h : Nat) (c c' : Column) : Prop := c.get? g = c'.get? h

theorem sameCellAt_ofCells {cells cells' : List Value} (hcells : cells[g]? = cells'[h]?) :
    SameCellAt g h (.ofCells cells) (.ofCells cells') := by
  unfold SameCellAt
  rw [Column.get?_ofCells, Column.get?_ofCells, hcells]

/-- The columns of the keys hold the same at groups with the same keys. -/
theorem SameGroup.keyTable (hsame : v.SameGroup g w h) (hg : g < v.groupCount)
    (hh : h < w.groupCount) {t t' : Table} (ht : v.keyTable = .ok t)
    (ht' : w.keyTable = .ok t') : t.Alongside (SameCellAt g h) t' := by
  have hkeys := hsame.keys
  unfold View.groupCount at hg hh
  unfold View.keyTable at ht ht'
  cases hgroups : v.groups with
  | none =>
    cases hgroups' : w.groups with
    | none =>
      rw [hgroups] at ht
      rw [hgroups'] at ht'
      obtain rfl := Except.ok.inj ht
      obtain rfl := Except.ok.inj ht'
      exact .nil
    | some groups' =>
      rw [hgroups, hgroups'] at hkeys
      cases hkeys
  | some groups =>
    cases hgroups' : w.groups with
    | none =>
      rw [hgroups, hgroups'] at hkeys
      cases hkeys
    | some groups' =>
      rw [hgroups, hgroups'] at hkeys
      obtain ⟨hnames, hvalues⟩ := Prod.mk.inj (Option.some.inj hkeys)
      rw [hgroups] at ht hg
      rw [hgroups'] at ht' hh
      dsimp only at ht ht'
      rw [hnames] at ht
      have hempty : (Table.withRows groups.shown.size).Alongside (SameCellAt g h)
          (.withRows groups'.shown.size) := .nil
      refine foldlM_forall₂_keeps (R := fun t t' : Table => t.Alongside (SameCellAt g h) t')
        (S := Eq) (List.forall₂_same.2 fun _ _ => rfl) ?_ hempty ht ht'
      rintro t t' u u' e _ rfl hrows hu hu'
      refine hrows.add ?_ (QueryError.ofTable_eq_ok hu) (QueryError.ofTable_eq_ok hu')
      unfold SameCellAt
      rw [get?_keyColumn hg, get?_keyColumn hh, hvalues]

/-- Expressions with the same values at two groups become columns with the same cells there. -/
theorem alongside_setGroupColumn {groups groups' : Nat} (hg : g < groups) (hh : h < groups')
    {es es' : List NamedFormula} (hes : List.Forall₂ (fun e e' => e.name = e'.name ∧
      e.formula.evalRow results.lookup g = e'.formula.evalRow results'.lookup h) es es')
    {t t' u u' : Table} (hrows : t.Alongside (SameCellAt g h) t')
    (hu : es.foldlM (setGroupColumn groups results) t = .ok u)
    (hu' : es'.foldlM (setGroupColumn groups' results') t' = .ok u') :
    u.Alongside (SameCellAt g h) u' := by
  refine foldlM_forall₂_keeps (R := fun t t' : Table => t.Alongside (SameCellAt g h) t') hes
    (fun t t' u u' e e' he hrows hu hu' => ?_) hrows hu hu'
  obtain ⟨hname, hvalue⟩ := he
  obtain ⟨cells, hcells, hu⟩ := bind_eq_ok hu
  obtain ⟨cells', hcells', hu'⟩ := bind_eq_ok hu'
  rw [hname] at hu
  refine hrows.set (sameCellAt_ofCells ?_) (QueryError.ofTable_eq_ok hu)
    (QueryError.ofTable_eq_ok hu')
  rw [getElem?_of_mapM (QueryError.ofRead_eq_ok hcells) g,
    getElem?_of_mapM (QueryError.ofRead_eq_ok hcells') h, List.getElem?_range hg,
    List.getElem?_range hh, Option.bind_some, Option.bind_some, hvalue]

/-! ## The row of a group -/

/-- Groups with the same keys and the same cells have the same row, if escaped functions answer
    alike at their numbers. -/
theorem SameGroup.rollup_eq (hsame : v.SameGroup g w h) (hv : v.Sound key) (hw : w.Sound key')
    (hcoded : v.data.WellCoded) (hcoded' : w.data.WellCoded) (hg : g < v.groupCount)
    (hh : h < w.groupCount) (hescaped : ∀ e ∈ exprs, ∀ f ∈ e.2.escaped?,
      f ⟨[v.data], .row g⟩ v.params = f ⟨[w.data], .row h⟩ w.params)
    (hx : v.rollup exprs = .ok x) (hy : w.rollup exprs = .ok y) :
    x.data.names = y.data.names ∧
      ∃ cells, x.cellsOf g = some cells ∧ y.cellsOf h = some cells := by
  have hxSound := sound_of_rollup key hx
  have hcount := totalRows_of_rollup hx
  obtain ⟨r, results, keys, t, hr, hresults, hkeys, ht, rfl⟩ := rollup_eq_ok hx
  obtain ⟨r', results', keys', t', hr', hresults', hkeys', ht', rfl⟩ := rollup_eq_ok hy
  obtain ⟨rows, rows', pairs, hrows, hrows', hpairs, hpairs', hlt, hcells⟩ :=
    hsame.exists_pairs hv hw
  -- both sides resolve to expressions that evaluate alike at the groups
  have hcounterparts := counterparts_groupwise hcoded hcoded' hlt hcells w.params
  have houtcome := Resolve.outcome_resolve_narrowed hcounterparts (narrows_groupwiseAt pairs g h)
    exprs
  have hresolve : ColumnQuery.resolve ⟨[v.data], w.params, .rollup⟩ exprs = .ok r :=
    hsame.params ▸ hr
  have hresolve' : ColumnQuery.resolve ⟨[w.data], w.params, .rollup⟩ exprs = .ok r' := hr'
  rw [hresolve, hresolve'] at houtcome
  cases houtcome with
  | ok houtcome =>
    have hresolution := houtcome fun e he f hf env env' henvs => by
      obtain ⟨hleft, hright⟩ := henvs.2 rfl
      rw [hleft, hright]
      exact hsame.params ▸ hescaped e he f hf
    have hread := read_of_groupRows hv hw hr hr' hresolution hresults hresults' hrows hrows' hpairs
      hpairs' hg hh
    have htables : t.Alongside (SameCellAt g h) t' :=
      alongside_setGroupColumn hg hh (hresolution.exprs.imp fun d d' hd =>
        ⟨hd.name, evalRow_of_sameNamed hd hread⟩) (hsame.keyTable hg hh hkeys hkeys') ht ht'
    have hrow : (v.fresh t).cellsOf g = (w.fresh t').cellsOf h :=
      mapM_of_forall₂ (List.Forall₂.imp (fun _ _ he => he.2) htables)
    obtain ⟨cells, hcells⟩ := hxSound.exists_cellsOf (hcount ▸ hg)
    exact ⟨htables.names, cells, hcells, hrow ▸ hcells⟩

/-- The row of a group in a roll-up is made of the group alone: of the cells of its visible rows in
    order, its keys and the parameters. Only escaped functions see more, namely the row of the table
    that has the number of the group; a roll-up that resolves, of keys with different names, fails
    only if one of them reads outside of the table. -/
theorem rollup_own_group (hv : ReachableCoded v) (exprs : List (String × ExprSpec)) :
    (∀ w g h x y, ReachableCoded w → g < v.groupCount → h < w.groupCount → v.SameGroup g w h →
      (∀ e ∈ exprs, ∀ f ∈ e.2.escaped?,
        f ⟨[v.data], .row g⟩ v.params = f ⟨[w.data], .row h⟩ w.params) →
      v.rollup exprs = .ok x → w.rollup exprs = .ok y →
      x.data.names = y.data.names ∧
        ∃ cells, x.cellsOf g = some cells ∧ y.cellsOf h = some cells) ∧
    ∀ r, v.resolve exprs .rollup = .ok r →
      (∀ groups, v.groups = some groups → groups.shown.names.Nodup) →
      ((∃ x, v.rollup exprs = .ok x) ↔ ∀ g < v.groupCount, v.EscapesAnswer exprs g) := by
  obtain ⟨key, hreach⟩ := hv.reachable
  have hsound := sound_of_reachable hreach
  refine ⟨fun w g h x y hw hg hh hsame hescaped hx hy => ?_, fun r hr hnames =>
    hsound.rollup_isOk_iff hr hnames⟩
  obtain ⟨key', hreach'⟩ := hw.reachable
  exact hsame.rollup_eq hsound (sound_of_reachable hreach') hv.wellCoded hw.wellCoded hg hh
    hescaped hx hy

/-- Letters with marks; only the mark of the second row is left open. -/
def marked (mark : String) : Table :=
  ⟨[("x", .ofValues [.string "a", .string "b", .string "a"]),
    ("y", .ofValues [.string "u", .string mark, .string "w"])], 3⟩

theorem marked_wellCoded (mark : String) : (marked mark).WellCoded where
  wellFormed := Table.wellFormed_ofValues [("x", [.string "a", .string "b", .string "a"]),
    ("y", [.string "u", .string mark, .string "w"])] rfl
  words := by simp [marked, Column.ofValues, Column.DistinctWords]

/-- The marks of a group, and the mark that a function sees at the number of the group. -/
def marks : List (String × ExprSpec) :=
  [("all", .tree (.call (.identifier "array_agg") [.column 0 "y"])),
    ("seen", .escape fun row _ => row.cell? 0 "y")]

theorem escaped_marks : ∀ e ∈ marks, ∀ f ∈ e.2.escaped?, f = fun row _ => row.cell? 0 "y" := by
  intro e he f hf
  obtain rfl | rfl : e = _ ∨ e = _ := by simpa [marks] using he
  · cases hf
  · exact (Option.some.inj hf).symm

/-- Grouped by letter, the first and the third row are one of two groups. -/
theorem exists_groupBy_marked (mark : String) : ∃ v,
    (View.ofTable (marked mark)).groupBy ["x"] = .ok v ∧ ReachableCoded v ∧
    v.data = marked mark ∧ v.params = [] ∧ v.groupCount = 2 ∧
    (∀ groups, v.groups = some groups → groups.shown.names.Nodup) ∧
    v.groups.map (fun groups => (groups.shown.names, groups.shown.values[0]?))
      = some (["x"], some [.string "a"]) ∧
    v.groupCells 0 = some [[.string "a", .string "u"], [.string "a", .string "w"]] := by
  obtain ⟨v, hgrouped⟩ : ∃ v, (View.ofTable (marked mark)).groupBy ["x"] = .ok v := ⟨_, rfl⟩
  have hreach : ReachableCoded v :=
    .step (.groupBy ["x"]) (.table (marked_wellCoded mark)) nofun trivial hgrouped
  refine ⟨v, hgrouped, hreach, ?_⟩
  cases hgrouped
  refine ⟨rfl, rfl, rfl, ?_, rfl, rfl⟩
  rintro groups ⟨⟩
  exact List.nodup_singleton "x"

/-- The function answers at both groups. -/
theorem escapesAnswer_marks {mark : String} (hdata : v.data = marked mark)
    (hcount : v.groupCount = 2) : ∀ g < v.groupCount, v.EscapesAnswer marks g := by
  rw [hcount]
  intro g hg e he f hf
  rw [escaped_marks e he f hf, hdata]
  match g, hg with
  | 0, _ => exact ⟨_, rfl⟩
  | 1, _ => exact ⟨_, rfl⟩

/-- Another mark in the group of the second letter changes nothing in the row of the first one. -/
theorem rollup_own_group_letters : ∃ v w x y cells,
    (View.ofTable (marked "v")).groupBy ["x"] = .ok v ∧
    (View.ofTable (marked "z")).groupBy ["x"] = .ok w ∧
    v.rollup marks = .ok x ∧ w.rollup marks = .ok y ∧
    x.cellsOf 0 = some cells ∧ y.cellsOf 0 = some cells := by
  obtain ⟨v, hv, hreach, hdata, hparams, hcount, hnames, hkeys, hcells⟩ :=
    exists_groupBy_marked "v"
  obtain ⟨w, hw, hreach', hdata', hparams', hcount', hnames', hkeys', hcells'⟩ :=
    exists_groupBy_marked "z"
  obtain ⟨r, hr, -⟩ := exists_ok (x := (View.ofTable (marked "v")).resolve marks .rollup)
    (p := fun _ => true) (by decide +kernel)
  obtain ⟨r', hr', -⟩ := exists_ok (x := (View.ofTable (marked "z")).resolve marks .rollup)
    (p := fun _ => true) (by decide +kernel)
  obtain ⟨hsame, hgoes⟩ := rollup_own_group hreach marks
  obtain ⟨-, hgoes'⟩ := rollup_own_group hreach' marks
  obtain ⟨x, hx⟩ := (hgoes r (by rw [View.resolve, hdata, hparams]; exact hr) hnames).2
    (escapesAnswer_marks hdata hcount)
  obtain ⟨y, hy⟩ := (hgoes' r' (by rw [View.resolve, hdata', hparams']; exact hr') hnames').2
    (escapesAnswer_marks hdata' hcount')
  have hgroup : v.SameGroup 0 w 0 := by
    refine ⟨hparams.trans hparams'.symm, ?_, hkeys.trans hkeys'.symm, hcells.trans hcells'.symm⟩
    rw [hdata, hdata']
    rfl
  have hseen : ∀ e ∈ marks, ∀ f ∈ e.2.escaped?,
      f ⟨[v.data], .row 0⟩ v.params = f ⟨[w.data], .row 0⟩ w.params := by
    intro e he f hf
    rw [escaped_marks e he f hf, hdata, hdata']
    rfl
  obtain ⟨-, cells, hx0, hy0⟩ := hsame w 0 0 x y hreach' (by omega) (by omega) hgroup hseen hx hy
  exact ⟨v, w, x, y, cells, hv, hw, hx, hy, hx0, hy0⟩

end View

end ColumnQuery
