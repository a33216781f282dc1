/-
  Views as sets of rows.

  Rows are compared cell by cell in the columns of the first view (`Table.Agree`). Dropping
  duplicates keeps of each row the first one in order (`Sound.showsWhere_dedupe`): what is kept so
  far decides, and since agreeing is an equivalence it makes no difference that rows which were
  dropped are not looked at again (`mem_firstByKey`). A semijoin by equality in all columns keeps the
  rows that have no invalid cell and agree with a row of the other view, an antijoin the others
  (`Sound.showsWhere_semijoin`, `Sound.showsWhere_antijoin`), and a chain of them keeps what every
  link keeps (`ShowsWhere.foldlM`).

  So unions, intersections and differences are those of sets of rows (`setAlgebra_of_reachable`).
  Invalid cells count where rows are matched with other views and only there: a row that has one is
  in no other view, but nothing is asked of it if there is no other view
  (`intersect_nil_shows_null`).
-/
import ColumnQuery.Proofs.Join.Columns
import ColumnQuery.Proofs.Value.Ties
import ColumnQuery.Proofs.View.Matched

namespace ColumnQuery

/-! ## Rows compared cell by cell -/

namespace Table

/-- Two rows have the same cells in the named columns. -/
def Agree (names : List String) (t : Table) (i : Nat) (u : Table) (j : Nat) : Prop :=
  ∀ n ∈ names, ∃ x y, t.valueAt? n i = some x ∧ u.valueAt? n j = some y ∧ x.same y = true

/-- A row has no null and no not-a-number in the named columns. -/
def ValidIn (names : List String) (t : Table) (i : Nat) : Prop :=
  ∀ n ∈ names, ∃ x, t.valueAt? n i = some x ∧ x.isValid = true

variable {names : List String} {t u : Table} {i j : Nat} {k l : List Value}

theorem Agree.trans {a b c : Table} {i j k : Nat} (hab : Agree names a i b j)
    (hbc : Agree names b j c k) : Agree names a i c k := by
  intro n hn
  obtain ⟨x, y, hx, hy, hxy⟩ := hab n hn
  obtain ⟨y', z, hy', hz, hyz⟩ := hbc n hn
  obtain rfl := Option.some.inj (hy.symm.trans hy')
  exact ⟨x, z, hx, hz, Value.same_trans hxy hyz⟩

theorem WellFormed.agree_refl (ht : t.WellFormed) (hi : i < t.rowCount) :
    Agree t.names t i t i := by
  intro n hn
  obtain ⟨x, hx⟩ := ht.exists_valueAt? hn hi
  exact ⟨x, x, hx, hx, Value.same_refl x⟩

theorem agree_iff (hk : names.mapM (t.valueAt? · i) = some k)
    (hl : names.mapM (u.valueAt? · j) = some l) :
    Agree names t i u j ↔ Value.sameItems k l = true := by
  induction names generalizing k l with
  | nil =>
    cases hk
    cases hl
    exact ⟨fun _ => rfl, fun _ _ h => by cases h⟩
  | cons n names ih =>
    rw [List.mapM_cons] at hk hl
    obtain ⟨x, hx, hk⟩ := Option.bind_eq_some_iff.1 hk
    obtain ⟨ks, hks, hk⟩ := Option.bind_eq_some_iff.1 hk
    obtain ⟨y, hy, hl⟩ := Option.bind_eq_some_iff.1 hl
    obtain ⟨ls, hls, hl⟩ := Option.bind_eq_some_iff.1 hl
    cases hk
    cases hl
    have hfirst : (∃ a b, t.valueAt? n i = some a ∧ u.valueAt? n j = some b ∧ a.same b = true) ↔
        x.same y = true := by
      rw [hx, hy]
      simp
    rw [Value.sameItems, Bool.and_eq_true, ← ih hks hls, ← hfirst]
    exact List.forall_mem_cons

theorem validIn_iff (hk : names.mapM (t.valueAt? · i) = some k) :
    ValidIn names t i ↔ ∀ x ∈ k, x.isValid = true := by
  constructor
  · intro h x hx
    obtain ⟨n, hn, hvalue⟩ := mem_of_mapM hk hx
    obtain ⟨y, hy, hvalid⟩ := h n hn
    obtain rfl : x = y := Option.some.inj (hvalue.symm.trans hy)
    exact hvalid
  · intro h n hn
    obtain ⟨x, hx, hvalue⟩ := exists_of_mapM hk hn
    exact ⟨x, hvalue, h x hx⟩

/-- Distinct names find their columns. -/
theorem WellFormed.column?_of_mem (ht : t.WellFormed) {e : String × Column} (he : e ∈ t.columns) :
    t.column? e.1 = some e.2 := by
  obtain ⟨found, hfound, hmem⟩ := exists_lookup_of_mem he
  have hsame : (e.1, found) = e :=
    List.inj_on_of_nodup_map (f := Prod.fst) ht.nodup_names hmem he rfl
  rw [← hsame]
  exact hfound

/-- The cells of a row, read by position or by name. -/
theorem WellFormed.mapM_columns (ht : t.WellFormed) (row : Nat) :
    t.columns.mapM (·.2.get? row) = t.names.mapM (t.valueAt? · row) := by
  unfold names
  rw [List.mapM_map]
  refine mapM_congr fun e he => ?_
  show _ = t.valueAt? e.1 row
  rw [valueAt?, ht.column?_of_mem he]
  rfl

end Table

namespace View

variable {v w u : View} {key : RowKey} {p q : Nat → Prop}

/-! ## Views with fewer rows -/

/-- The other view shows, in the order of the view, those of its rows that have a property. -/
structure ShowsWhere (v : View) (p : Nat → Prop) (u : View) : Prop where
  data : u.data = v.data
  rows : ∃ rows kept, v.sorted = some rows ∧ u.sorted = some kept ∧ kept.Sublist rows ∧
    ∀ row, row ∈ kept ↔ row ∈ rows ∧ p row

theorem ShowsWhere.mem_visible (h : v.ShowsWhere p u) (row : Nat) :
    row ∈ u.visible ↔ row ∈ v.visible ∧ p row := by
  obtain ⟨rows, kept, hrows, hkept, -, hmem⟩ := h.rows
  rw [← (perm_of_sorted hrows).mem_iff, ← (perm_of_sorted hkept).mem_iff]
  exact hmem row

theorem ShowsWhere.trans (hw : v.ShowsWhere p w) (hu : w.ShowsWhere q u) :
    v.ShowsWhere (fun row => p row ∧ q row) u := by
  obtain ⟨rows, middle, hrows, hmiddle, hsub, hmem⟩ := hw.rows
  obtain ⟨middle', kept, hmiddle', hkept, hsub', hmem'⟩ := hu.rows
  obtain rfl := Option.some.inj (hmiddle.symm.trans hmiddle')
  refine ⟨hu.data.trans hw.data, rows, kept, hrows, hkept, hsub'.trans hsub, fun row => ?_⟩
  rw [hmem', hmem, and_assoc]

theorem ShowsWhere.congr (h : v.ShowsWhere p u) (hpq : ∀ row ∈ v.visible, p row ↔ q row) :
    v.ShowsWhere q u := by
  obtain ⟨rows, kept, hrows, hkept, hsub, hmem⟩ := h.rows
  refine ⟨h.data, rows, kept, hrows, hkept, hsub, fun row => ?_⟩
  rw [hmem]
  exact and_congr_right fun hrow => hpq row ((perm_of_sorted hrows).mem_iff.1 hrow)

theorem Sound.showsWhere_withFilter (hv : v.Sound key) {f : BitSet} (hf : v.Selects f)
    (hp : ∀ row ∈ v.visible, f.contains row = true ↔ p row) :
    v.ShowsWhere p (v.withFilter f) := by
  obtain ⟨rows, hrows, -⟩ := hv.exists_sorted
  refine ⟨rfl, rows, _, hrows, hv.sorted_withFilter hf hrows, List.filter_sublist, fun row => ?_⟩
  rw [List.mem_filter]
  exact and_congr_right fun hrow => hp row ((perm_of_sorted hrows).mem_iff.1 hrow)

/-- A chain of steps, each of which keeps the rows with a property, keeps those that have all of
    them. -/
theorem ShowsWhere.foldlM {step : View → View → Except QueryError View} {keeps : View → Nat → Prop}
    {t : Table} (hstep : ∀ w other x, w.Sound key → w.data = t → step w other = .ok x →
      x.Sound key ∧ w.ShowsWhere (keeps other) x) {others : List View} (hw : w.Sound key)
    (hdata : w.data = t) (h : others.foldlM step w = .ok u) :
    w.ShowsWhere (fun row => ∀ other ∈ others, keeps other row) u := by
  induction others generalizing w with
  | nil =>
    cases h
    obtain ⟨rows, hrows, -⟩ := hw.exists_sorted
    exact ⟨rfl, rows, rows, hrows, hrows, List.Sublist.refl _, by simp⟩
  | cons other others ih =>
    rw [List.foldlM_cons] at h
    obtain ⟨x, hx, h⟩ := bind_eq_ok h
    obtain ⟨hxSound, hfirst⟩ := hstep w other x hw hdata hx
    refine (hfirst.trans (ih hxSound (hfirst.data.trans hdata) h)).congr fun row _ => ?_
    exact (List.forall_mem_cons (p := fun other => keeps other row)).symm

/-! ## Rows without duplicates -/

/-- No earlier row has the same cells. -/
def IsFirst (v : View) (row : Nat) : Prop :=
  ∃ before after, v.sorted = some (before ++ row :: after) ∧
    ∀ earlier ∈ before, ¬ Table.Agree v.data.names v.data earlier v.data row

/-- Of the rows with the same cells there is a first one. -/
theorem Sound.exists_isFirst (hv : v.Sound key) {row : Nat} (hrow : row ∈ v.visible) :
    ∃ first, v.IsFirst first ∧ Table.Agree v.data.names v.data first v.data row := by
  classical
  obtain ⟨rows, hrows, hperm⟩ := hv.exists_sorted
  have hself := hv.table.agree_refl (hv.lt_of_visible hrow)
  have hfound : (rows.find? fun r => Table.Agree v.data.names v.data r v.data row).isSome = true :=
    List.find?_isSome.2 ⟨row, hperm.mem_iff.2 hrow, decide_eq_true hself⟩
  obtain ⟨first, hfirst⟩ := Option.isSome_iff_exists.1 hfound
  obtain ⟨hagree, before, after, rfl, hbefore⟩ := List.find?_eq_some_iff_append.1 hfirst
  have hagree := of_decide_eq_true hagree
  refine ⟨first, ⟨before, after, hrows, fun earlier hearlier hsame => ?_⟩, hagree⟩
  have hnot := hbefore earlier hearlier
  rw [decide_eq_true (hsame.trans hagree)] at hnot
  cases hnot

/-- Rows whose key is not that of a row before them, or of one seen already. -/
theorem mem_firstByKey {seen : List (List Value)} {es : List (Nat × List Value)} {row : Nat} :
    row ∈ firstByKey seen es ↔ ∃ before k after, es = before ++ (row, k) :: after ∧
      (∀ s ∈ seen, Value.sameItems s k = false) ∧ ∀ e ∈ before, Value.sameItems e.2 k = false := by
  induction es generalizing seen with
  | nil => simp [firstByKey]
  | cons e es ih =>
    obtain ⟨first, l⟩ := e
    rw [firstByKey]
    by_cases hseen : seen.any (Value.sameItems · l) = true
    · obtain ⟨s, hs, hsl⟩ := List.any_eq_true.1 hseen
      rw [if_pos hseen, ih]
      constructor
      · rintro ⟨before, k, after, rfl, hnew, hbefore⟩
        refine ⟨(first, l) :: before, k, after, rfl, hnew, List.forall_mem_cons.2 ⟨?_, hbefore⟩⟩
        -- the key of the row left out is that of a row seen
        rw [← KeyIndex.sameItems_congr_left hsl]
        exact hnew s hs
      · rintro ⟨before, k, after, heq, hnew, hbefore⟩
        cases before with
        | nil =>
          cases heq
          rw [hnew s hs] at hsl
          cases hsl
        | cons e before =>
          cases heq
          exact ⟨before, k, after, rfl, hnew, (List.forall_mem_cons.1 hbefore).2⟩
    · have hnone : ∀ s ∈ seen, Value.sameItems s l = false := fun s hs =>
        Bool.eq_false_iff.2 fun hsl => hseen (List.any_eq_true.2 ⟨s, hs, hsl⟩)
      rw [if_neg hseen, List.mem_cons, ih]
      constructor
      · rintro (rfl | ⟨before, k, after, rfl, hnew, hbefore⟩)
        · exact ⟨[], l, es, rfl, hnone, by simp⟩
        · obtain ⟨hfirst, hnew⟩ := List.forall_mem_cons.1 hnew
          exact ⟨(first, l) :: before, k, after, rfl, hnew,
            List.forall_mem_cons.2 ⟨hfirst, hbefore⟩⟩
      · rintro ⟨before, k, after, heq, hnew, hbefore⟩
        cases before with
        | nil =>
          cases heq
          exact .inl rfl
        | cons e before =>
          cases heq
          obtain ⟨hfirst, hbefore⟩ := List.forall_mem_cons.1 hbefore
          exact .inr ⟨before, k, after, rfl, List.forall_mem_cons.2 ⟨hfirst, hnew⟩, hbefore⟩

/-- No earlier row has the same key. -/
def FirstBy (v : View) (key : RowKey) (row : Nat) : Prop :=
  ∃ before after, v.sorted = some (before ++ row :: after) ∧ ∀ earlier ∈ before, ∀ k l,
    key earlier = some k → key row = some l → Value.sameItems k l = false

/-- The first rows by their keys are those without an earlier row of the same key. -/
theorem mem_firstByKey_iff {cells : RowKey} {rows : List Nat} {keys : List (List Value)}
    (hrows : v.sorted = some rows) (hkeys : rows.mapM cells = some keys) (row : Nat) :
    row ∈ firstByKey [] (rows.zip keys) ↔ v.FirstBy cells row := by
  have hlength := length_of_mapM hkeys
  have hfst : (rows.zip keys).map (·.1) = rows :=
    List.map_fst_zip (Nat.le_of_eq hlength.symm)
  have hkey : ∀ e ∈ rows.zip keys, cells e.1 = some e.2 := by
    intro e he
    obtain ⟨i, hi⟩ := List.mem_iff_getElem?.1 he
    obtain ⟨hrow, hvalue⟩ := List.getElem?_zip_eq_some.1 hi
    rw [getElem?_of_mapM hkeys, hrow] at hvalue
    exact hvalue
  rw [mem_firstByKey]
  constructor
  · rintro ⟨before, k, after, heq, -, hbefore⟩
    rw [heq] at hfst hkey
    refine ⟨before.map (·.1), after.map (·.1), ?_, fun earlier hearlier k' l hk' hl => ?_⟩
    · rw [hrows, ← hfst, List.map_append, List.map_cons]
    · obtain ⟨e, he, rfl⟩ := List.mem_map.1 hearlier
      obtain rfl := Option.some.inj ((hkey e (by simp [he])).symm.trans hk')
      obtain rfl := Option.some.inj ((hkey (row, k) (by simp)).symm.trans hl)
      exact hbefore e he
  · rintro ⟨before, after, hsplit, hfirst⟩
    obtain rfl := Option.some.inj (hrows.symm.trans hsplit)
    obtain ⟨before', rest, heq, rfl, hrest⟩ := List.map_eq_append_iff.1 hfst
    obtain ⟨e, after', rfl, rfl, rfl⟩ := List.map_eq_cons_iff.1 hrest
    rw [heq] at hkey
    refine ⟨before', e.2, after', heq, by simp, fun d hd => ?_⟩
    exact hfirst d.1 (List.mem_map_of_mem hd) d.2 e.2 (hkey d (by simp [hd])) (hkey e (by simp))

/-- A view that keeps the first rows by their keys shows those. -/
theorem Sound.showsWhere_firstByKey (hv : v.Sound key) {cells : RowKey} {rows : List Nat}
    {keys : List (List Value)} (hrows : v.sorted = some rows) (hkeys : rows.mapM cells = some keys)
    (h : v.keepRows (firstByKey [] (rows.zip keys)) = .ok u) :
    v.ShowsWhere (v.FirstBy cells) u := by
  have hfirst := mem_firstByKey_iff hrows hkeys
  have hshown : ∀ row ∈ firstByKey [] (rows.zip keys), row ∈ v.visible := by
    intro row hrow
    obtain ⟨before, after, hsplit, -⟩ := (hfirst row).1 hrow
    exact (perm_of_sorted hsplit).mem_iff.1 (by simp)
  obtain ⟨f, hf, hselects, hcontains⟩ := hv.exists_rowSet hshown
  unfold View.keepRows at h
  rw [hf] at h
  cases h
  refine hv.showsWhere_withFilter hselects fun row _ => ?_
  rw [hcontains, decide_eq_true_iff, hfirst]

/-- The cells of a row in named columns. -/
def cellsNamed (v : View) (names : List String) : RowKey :=
  fun row => names.mapM (v.data.valueAt? · row)

/-- Rows agree if their cells are the same. -/
theorem Sound.isFirst_iff (hv : v.Sound key) {row : Nat} (hrow : row ∈ v.visible) :
    v.IsFirst row ↔ v.FirstBy (v.cellsNamed v.data.names) row := by
  have hcells : ∀ row ∈ v.visible, ∃ k, v.cellsNamed v.data.names row = some k := fun row hrow =>
    exists_mapM _ _ fun _ hn => hv.table.exists_valueAt? hn (hv.lt_of_visible hrow)
  unfold IsFirst FirstBy
  refine exists_congr fun before => exists_congr fun after => and_congr_right fun hsplit =>
    forall₂_congr fun earlier hearlier => ?_
  have hvisible : earlier ∈ v.visible := (perm_of_sorted hsplit).mem_iff.1 (by simp [hearlier])
  obtain ⟨k, hk⟩ := hcells earlier hvisible
  obtain ⟨l, hl⟩ := hcells row hrow
  rw [Table.agree_iff hk hl, hk, hl, Bool.not_eq_true]
  constructor
  · rintro h _ _ ⟨⟩ ⟨⟩
    exact h
  · exact fun h => h k l rfl rfl

/-- Dropping duplicates keeps the first row of each. -/
theorem Sound.showsWhere_dedupe (hv : v.Sound key) (h : v.dedupe [] = .ok u) :
    v.ShowsWhere v.IsFirst u := by
  obtain ⟨columns, hcolumns, h⟩ := bind_eq_ok h
  cases hcolumns
  obtain ⟨kept, hkept, h⟩ := bind_eq_ok h
  obtain ⟨rows, hrows, hkept⟩ := Option.bind_eq_some_iff.1 (QueryError.ofRead_eq_ok hkept)
  obtain ⟨keys, hkeys, hkept⟩ := Option.bind_eq_some_iff.1 hkept
  obtain rfl := Option.some.inj hkept
  have hcells : rows.mapM (v.cellsNamed v.data.names) = some keys := by
    rw [← hkeys]
    refine mapM_congr fun row _ => ?_
    rw [List.mapM_map]
    exact (hv.table.mapM_columns row).symm
  exact (hv.showsWhere_firstByKey hrows hcells h).congr fun row hrow => (hv.isFirst_iff hrow).symm

theorem keyColumns_cells {names : List String} (hnames : names ≠ []) {columns : List Column}
    (h : v.keyColumns names = .ok columns) (row : Nat) :
    columns.mapM (·.get? row) = v.cellsNamed names row := by
  unfold keyColumns at h
  rw [if_neg (by simpa using hnames)] at h
  clear hnames
  unfold cellsNamed
  induction names generalizing columns with
  | nil =>
    cases h
    rfl
  | cons name names ih =>
    rw [List.mapM_cons] at h
    obtain ⟨c, hc, h⟩ := bind_eq_ok h
    obtain ⟨rest, hrest, h⟩ := bind_eq_ok h
    cases h
    have hvalue : v.data.valueAt? name row = c.get? row := by
      cases hfound : v.data.column? name with
      | none =>
        rw [hfound] at hc
        cases hc
      | some d =>
        rw [hfound] at hc
        cases hc
        rw [Table.valueAt?, hfound]
        rfl
    rw [List.mapM_cons, List.mapM_cons, hvalue, ih hrest]

/-- Dropping duplicates in named columns keeps the first row of each. -/
theorem Sound.showsWhere_dedupe_named (hv : v.Sound key) {names : List String} (hnames : names ≠ [])
    (h : v.dedupe names = .ok u) : v.ShowsWhere (v.FirstBy (v.cellsNamed names)) u := by
  obtain ⟨columns, hcolumns, h⟩ := bind_eq_ok h
  obtain ⟨kept, hkept, h⟩ := bind_eq_ok h
  obtain ⟨rows, hrows, hkept⟩ := Option.bind_eq_some_iff.1 (QueryError.ofRead_eq_ok hkept)
  obtain ⟨keys, hkeys, hkept⟩ := Option.bind_eq_some_iff.1 hkept
  obtain rfl := Option.some.inj hkept
  refine hv.showsWhere_firstByKey hrows ?_ h
  rw [← hkeys]
  exact mapM_congr fun row _ => (keyColumns_cells hnames hcolumns row).symm

end View

/-! ## Equality in columns -/

namespace Resolve

variable {ctx : ResolveContext} {frame : Option Frame} {s s' : ResolveState}

/-- A named column resolves to that column of the first table. -/
theorem formula_of_run_column {name : String} {r : Formula × Option Node}
    (h : (spec ctx frame (.column name)).run s = .ok (r, s')) :
    ∃ t c, ctx.tables[0]? = some t ∧ t.column? name = some c ∧ r.1 = .column 0 c := by
  have hplaced : placed? ctx.tables.length frame (.column 0 name)
      = some (⟨Scope.standard ctx.tables.length, frame, false⟩, .column 0 name) := rfl
  obtain ⟨b, hb, rfl⟩ := run_spec_column_iff.1 h
  obtain ⟨tree, hbody⟩ := (run_root_iff_body hplaced).1 ⟨b.2, hb⟩
  cases derives_body hbody with
  | bodyExpression he =>
    cases he with
    | column hcolumn =>
      obtain ⟨t, c, ht, hc, -, heq⟩ := column_eq_ok_iff.1 hcolumn
      exact ⟨t, c, ht, hc, congrArg Prod.fst heq⟩

/-- Named columns resolve to those columns, one by one. -/
theorem formulas_of_columns (label : String × Nat → String) (names : List (String × Nat))
    {r : Resolution} (h : resolve ctx (names.map fun e => (label e, .column e.1)) = .ok r) :
    List.Forall₂ (fun e e' => ∃ t c, ctx.tables[0]? = some t ∧ t.column? e.1 = some c ∧
      e'.formula = .column 0 c) names r.exprs := by
  have hall : List.Forall₂ (fun (e : String × ExprSpec) e' => ∀ name, e.2 = .column name →
      ∃ t c, ctx.tables[0]? = some t ∧ t.column? name = some c ∧ e'.formula = .column 0 c)
      (names.map fun e => (label e, .column e.1)) r.exprs :=
    forall₂_of_resolve (fun _ _ _ _ _ hrun _ hname => formula_of_run_column (hname ▸ hrun)) h
  exact (List.forall₂_map_left_iff.1 hall).imp fun e _ he => he e.1 rfl

end Resolve

namespace Matcher

variable {v w : View} {names : List String} {m : Matcher}

/-- The key of named columns has their cells. -/
theorem evalKey_of_resolveKeys {formulas : List Formula}
    (h : resolveKeys v (names.map .column) = .ok formulas) (row : Nat) :
    Formula.evalKey formulas row = names.mapM (v.data.valueAt? · row) := by
  obtain ⟨r, hr, h⟩ := bind_eq_ok h
  cases h
  rw [List.zipIdx_map, List.map_map] at hr
  have hcolumns := Resolve.formulas_of_columns (fun e => s!"key{e.2}") names.zipIdx hr
  have hnames : names.mapM (v.data.valueAt? · row)
      = names.zipIdx.mapM fun e => v.data.valueAt? e.1 row := by
    conv_lhs => rw [← List.zipIdx_map_fst 0 names, List.mapM_map]
    rfl
  unfold Formula.evalKey
  rw [List.mapM_map, hnames]
  refine (mapM_of_forall₂ (hcolumns.imp fun e e' he => ?_)).symm
  obtain ⟨t, c, ht, hc, hformula⟩ := he
  cases ht
  show v.data.valueAt? e.1 row = e'.formula.eval (.ofPosition (.row row))
  rw [hformula, JoinColumn.eval_column (.row row) hc 0]
  rfl

/-- Rows match by equality in columns if they agree there and have no invalid cell. -/
theorem joins_columns_iff (h : resolveCondition v w (.columns names) = .ok m) (i j : Nat) :
    m.joins i j = true ↔
      Table.ValidIn names v.data i ∧ Table.Agree names v.data i w.data j := by
  rw [resolveCondition] at h
  split at h
  next => cases h
  next =>
    obtain ⟨lefts, hlefts, h⟩ := bind_eq_ok h
    obtain ⟨rights, hrights, h⟩ := bind_eq_ok h
    cases h
    rw [joins_keys_iff]
    simp only [evalKey_of_resolveKeys hlefts, evalKey_of_resolveKeys hrights]
    constructor
    · rintro ⟨k, l, hk, hl, hvalid, -, hsame⟩
      exact ⟨(Table.validIn_iff hk).2 hvalid,
        (Table.agree_iff hk hl).2 (Value.sameItems_iff_forall₂.2 hsame)⟩
    · rintro ⟨hvalid, hagree⟩
      obtain ⟨k, hk⟩ := exists_mapM (v.data.valueAt? · i) names fun n hn => by
        obtain ⟨x, -, hx, -⟩ := hagree n hn
        exact ⟨x, hx⟩
      obtain ⟨l, hl⟩ := exists_mapM (w.data.valueAt? · j) names fun n hn => by
        obtain ⟨-, y, -, hy, -⟩ := hagree n hn
        exact ⟨y, hy⟩
      have hvalid := (Table.validIn_iff hk).1 hvalid
      have hsame := Value.sameItems_iff_forall₂.1 ((Table.agree_iff hk hl).1 hagree)
      refine ⟨k, l, hk, hl, hvalid, fun y hy => ?_, hsame⟩
      obtain ⟨x, hx, hxy⟩ := exists_of_forall₂ hsame.flip hy
      rw [← Value.isValid_of_same hxy]
      exact hvalid x hx

end Matcher

namespace View

variable {v w u x y : View} {key : RowKey} {names : List String}

/-! ## Semijoins and antijoins by equality -/

/-- A visible row of the other view agrees with the row, which has no invalid cell. -/
def MatchedIn (names : List String) (t : Table) (other : View) (row : Nat) : Prop :=
  Table.ValidIn names t row ∧ ∃ r ∈ other.visible, Table.Agree names t row other.data r

theorem Sound.showsWhere_matched (hw : w.Sound key) (other : View) (names : List String) :
    (∃ e, w.semijoin other (.columns names) = .error e ∧
      w.antijoin other (.columns names) = .error e) ∨
    ∃ x y, w.semijoin other (.columns names) = .ok x ∧ w.antijoin other (.columns names) = .ok y ∧
      w.ShowsWhere (MatchedIn names w.data other) x ∧
      w.ShowsWhere (fun row => ¬ MatchedIn names w.data other row) y := by
  rcases hw.split_matched other (.columns names) with hrefused | ⟨m, found, matched, rest, hm, hfound,
    hsemijoin, hantijoin, hmatched, hrest, hcontains, hcomplement⟩
  · exact .inl hrefused
  have hrow : ∀ row ∈ w.visible,
      matched.contains row = true ↔ MatchedIn names w.data other row := by
    intro row hrow
    rw [hcontains, Matches.mem_matchedLeft hfound, and_iff_right hrow]
    simp only [Matcher.joins_columns_iff hm]
    constructor
    · rintro ⟨r, hr, hvalid, hagree⟩
      exact ⟨hvalid, r, hr, hagree⟩
    · rintro ⟨hvalid, r, hr, hagree⟩
      exact ⟨r, hr, hvalid, hagree⟩
  refine .inr ⟨_, _, hsemijoin, hantijoin, hw.showsWhere_withFilter hmatched hrow,
    hw.showsWhere_withFilter hrest fun row hvisible => ?_⟩
  rw [← hrow row hvisible, hcomplement row hvisible]
  simp

theorem Sound.showsWhere_semijoin (hw : w.Sound key) {other : View}
    (h : w.semijoin other (.columns names) = .ok x) :
    w.ShowsWhere (MatchedIn names w.data other) x := by
  rcases hw.showsWhere_matched other names with ⟨e, hrefused, -⟩ | ⟨x', y, hx, -, hshows, -⟩
  · rw [hrefused] at h
    cases h
  · rw [hx] at h
    cases h
    exact hshows

theorem Sound.showsWhere_antijoin (hw : w.Sound key) {other : View}
    (h : w.antijoin other (.columns names) = .ok y) :
    w.ShowsWhere (fun row => ¬ MatchedIn names w.data other row) y := by
  rcases hw.showsWhere_matched other names with ⟨e, -, hrefused⟩ | ⟨x, y', -, hy, -, hshows⟩
  · rw [hrefused] at h
    cases h
  · rw [hy] at h
    cases h
    exact hshows

/-! ## Union, intersection and difference -/

/-- The columns of stacked views are those of the first one. -/
theorem names_of_concat {others : List View} (h : v.concat others = .ok u) :
    u.data.names = v.data.names := by
  obtain ⟨parts, -, h⟩ := bind_eq_ok h
  obtain ⟨t, ht, h⟩ := bind_eq_ok h
  cases h
  have hnames : ∀ (names : List String) {t t' : Table},
      names.foldlM (addStacked parts) t = .ok t' → t'.names = t.names ++ names := by
    intro names
    induction names with
    | nil =>
      intro t t' h
      cases h
      exact (List.append_nil _).symm
    | cons n names ih =>
      intro t t' h
      rw [List.foldlM_cons] at h
      obtain ⟨next, hnext, h⟩ := bind_eq_ok h
      obtain ⟨cells, -, hnext⟩ := bind_eq_ok hnext
      obtain ⟨-, -, rfl⟩ := Table.add_eq_ok (QueryError.ofTable_eq_ok hnext)
      rw [ih h]
      simp [Table.names]
  exact hnames v.data.names ht

theorem showsWhere_of_union {others : List View} (h : v.union others = .ok u) :
    ∃ c, v.concat others = .ok c ∧ c.data.names = v.data.names ∧ c.ShowsWhere c.IsFirst u := by
  obtain ⟨c, hc, h⟩ := bind_eq_ok h
  exact ⟨c, hc, names_of_concat hc, (sound_of_concat (fun _ => none) hc).showsWhere_dedupe h⟩

theorem Sound.showsWhere_intersect (hv : v.Sound key) {others : List View}
    (h : v.intersect others = .ok u) : v.ShowsWhere (fun row => v.IsFirst row ∧
      ∀ other ∈ others, MatchedIn v.data.names v.data other row) u := by
  obtain ⟨d, hd, h⟩ := bind_eq_ok h
  have hfirst := hv.showsWhere_dedupe hd
  refine hfirst.trans (ShowsWhere.foldlM (fun w other x hw hdata hx => ?_) (hv.of_dedupe hd)
    hfirst.data h)
  rw [← hdata]
  exact ⟨hw.of_semijoin hx, hw.showsWhere_semijoin (hdata ▸ hx)⟩

theorem Sound.showsWhere_except (hv : v.Sound key) {others : List View}
    (h : v.except others = .ok u) : v.ShowsWhere (fun row => v.IsFirst row ∧
      ∀ other ∈ others, ¬ MatchedIn v.data.names v.data other row) u := by
  obtain ⟨d, hd, h⟩ := bind_eq_ok h
  have hfirst := hv.showsWhere_dedupe hd
  refine hfirst.trans (ShowsWhere.foldlM (fun w other x hw hdata hx => ?_) (hv.of_dedupe hd)
    hfirst.data h)
  rw [← hdata]
  exact ⟨hw.of_antijoin hx, hw.showsWhere_antijoin (hdata ▸ hx)⟩

/-- With one other view, intersection and difference are refused together, or split the distinct
    rows. -/
theorem Sound.split_distinct (hv : v.Sound key) (other : View) :
    (∃ e, v.intersect [other] = .error e ∧ v.except [other] = .error e) ∨
      ∃ d x y, v.dedupe [] = .ok d ∧ v.intersect [other] = .ok x ∧ v.except [other] = .ok y ∧
        (∀ row ∈ x.visible, row ∉ y.visible) ∧
        ∀ row, row ∈ d.visible ↔ row ∈ x.visible ∨ row ∈ y.visible := by
  cases hd : v.dedupe [] with
  | error e =>
    refine .inl ⟨e, ?_, ?_⟩
    · rw [View.intersect, hd]
      rfl
    · rw [View.except, hd]
      rfl
  | ok d =>
    have hintersect : v.intersect [other] = d.semijoin other (.columns v.data.names) := by
      rw [View.intersect, hd]
      exact bind_pure (d.semijoin other v.rowEquality)
    have hexcept : v.except [other] = d.antijoin other (.columns v.data.names) := by
      rw [View.except, hd]
      exact bind_pure (d.antijoin other v.rowEquality)
    rw [hintersect, hexcept]
    rcases (hv.of_dedupe hd).showsWhere_matched other v.data.names with
      hrefused | ⟨x, y, hx, hy, hkept, hrest⟩
    · exact .inl hrefused
    · refine .inr ⟨d, x, y, rfl, hx, hy, fun row hrow => ?_, fun row => ?_⟩
      · rw [hkept.mem_visible] at hrow
        rw [hrest.mem_visible]
        exact fun hboth => hboth.2 hrow.2
      · rw [hkept.mem_visible, hrest.mem_visible, ← and_or_left]
        exact (and_iff_left (Classical.em _)).symm

end View

/-- Set algebra on rows, with cells compared in the columns of the first view. A union shows the
    first of the rows with the same cells among all stacked rows; an intersection, in order, the
    first ones that have no invalid cell and agree with a row of every other view; a difference the
    first ones that have an invalid cell or agree with no row of the other views. With one other
    view, the last two split the distinct rows. -/
theorem setAlgebra_of_reachable {v : View} (hv : Reachable v) (others : List View) :
    (∀ u, v.union others = .ok u → ∃ c, v.concat others = .ok c ∧ c.data.names = v.data.names ∧
      c.ShowsWhere c.IsFirst u) ∧
    (∀ u, v.intersect others = .ok u → v.ShowsWhere (fun row => v.IsFirst row ∧
      ∀ other ∈ others, Table.ValidIn v.data.names v.data row ∧
        ∃ r ∈ other.visible, Table.Agree v.data.names v.data row other.data r) u) ∧
    (∀ u, v.except others = .ok u → v.ShowsWhere (fun row => v.IsFirst row ∧
      (¬ Table.ValidIn v.data.names v.data row ∨ ∀ other ∈ others, ∀ r ∈ other.visible,
        ¬ Table.Agree v.data.names v.data row other.data r)) u) ∧
    (∀ row ∈ v.visible, ∃ first, v.IsFirst first ∧
      Table.Agree v.data.names v.data first v.data row) ∧
    ∀ other, (∃ e, v.intersect [other] = .error e ∧ v.except [other] = .error e) ∨
      ∃ d x y, v.dedupe [] = .ok d ∧ v.ShowsWhere v.IsFirst d ∧ v.intersect [other] = .ok x ∧
        v.except [other] = .ok y ∧ (∀ row ∈ x.visible, row ∉ y.visible) ∧
        ∀ row, row ∈ d.visible ↔ row ∈ x.visible ∨ row ∈ y.visible := by
  obtain ⟨key, hreach⟩ := hv
  have hv := sound_of_reachable hreach
  refine ⟨fun u => View.showsWhere_of_union, fun u => hv.showsWhere_intersect, fun u hu => ?_,
    fun row => hv.exists_isFirst, fun other => ?_⟩
  · refine (hv.showsWhere_except hu).congr fun row _ => and_congr_right fun _ => ?_
    unfold View.MatchedIn
    by_cases hvalid : Table.ValidIn v.data.names v.data row <;> simp [hvalid]
  · rcases hv.split_distinct other with hrefused | ⟨d, x, y, hd, hx, hy, hdisjoint, hsplit⟩
    · exact .inl hrefused
    · exact .inr ⟨d, x, y, hd, hv.showsWhere_dedupe hd, hx, hy, hdisjoint, hsplit⟩

/-- Four letters, of which the third is the first again, and the first one by itself. -/
theorem setAlgebra_of_letters : ∃ other d x y u : View, other.visible = [0] ∧
    (View.ofTable letters).dedupe [] = .ok d ∧ d.visible = [0, 1, 3] ∧
    (View.ofTable letters).intersect [other] = .ok x ∧
    (View.ofTable letters).except [other] = .ok y ∧
    (∀ row, row ∈ d.visible ↔ row ∈ x.visible ∨ row ∈ y.visible) ∧
    (∀ row ∈ x.visible, (View.ofTable letters).IsFirst row ∧
      ∃ r ∈ other.visible, Table.Agree ["x"] letters row other.data r) ∧
    (View.ofTable letters).union [other] = .ok u ∧ u.visible = [0, 1, 3] := by
  have hreach : Reachable (.ofTable letters) := ⟨_, .table letters_wellFormed⟩
  obtain ⟨d, hd⟩ : ∃ d, (View.ofTable letters).dedupe [] = .ok d := ⟨_, rfl⟩
  have hdistinct := (View.sound_ofTable letters_wellFormed fun _ => none).of_dedupe hd
  obtain ⟨m, hm, -⟩ := exists_ok (x := Matcher.resolveCondition d firstLetter (.columns ["x"]))
    (p := fun _ => true) (by cases hd; decide +kernel)
  obtain ⟨kept, hkept⟩ := hdistinct.exists_semijoin sound_firstLetter
    (show JoinCondition.Answers _ _ (.columns ["x"]) from trivial) hm
  have hintersect : (View.ofTable letters).intersect [firstLetter] = .ok kept := by
    rw [View.intersect, hd]
    show (d.semijoin _ (.columns ["x"]) >>= pure) = _
    rw [hkept]
    rfl
  obtain ⟨-, hshows, -, -, hsplit⟩ := setAlgebra_of_reachable hreach [firstLetter]
  rcases hsplit firstLetter with ⟨e, hrefused, -⟩ | ⟨d', x, y, hd', -, hx, hy, -, hboth⟩
  · cases hintersect.symm.trans hrefused
  obtain rfl := Except.ok.inj (hd.symm.trans hd')
  obtain ⟨u, hu, hvisible⟩ := exists_ok (x := (View.ofTable letters).union [firstLetter])
    (p := fun u => u.visible == [0, 1, 3]) (by decide +kernel)
  refine ⟨_, d, x, y, u, visible_firstLetter, hd, by cases hd; decide +kernel, hx, hy, hboth,
    fun row hrow => ?_, hu, beq_iff_eq.1 hvisible⟩
  obtain ⟨hfirst, hagree⟩ := (((hshows x hx).mem_visible row).1 hrow).2
  exact ⟨hfirst, (hagree _ (by simp)).2⟩

/-- Where there is no other view, an intersection shows a row with a null. -/
theorem intersect_nil_shows_null : Reachable (.ofTable zeroKeys) ∧
    (∃ u, (View.ofTable zeroKeys).intersect [] = .ok u ∧ 3 ∈ u.visible) ∧
    ¬ Table.ValidIn (View.ofTable zeroKeys).data.names zeroKeys 3 := by
  obtain ⟨u, hu, hvisible⟩ := exists_ok (x := (View.ofTable zeroKeys).intersect [])
    (p := fun u => u.visible.contains 3) (by decide +kernel)
  refine ⟨⟨_, .table zeroKeys_wellFormed⟩, ⟨u, hu, List.contains_iff_mem.1 hvisible⟩, ?_⟩
  intro hvalid
  obtain ⟨x, hx, hvalid⟩ := hvalid "k" (by decide)
  cases hx
  cases hvalid

end ColumnQuery
