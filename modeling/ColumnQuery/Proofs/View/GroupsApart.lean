/-
  The groups of a view apart from each other.

  The rows of one group make a view of their own (`onlyGroup`): the same table without groups,
  under a filter that shows exactly the visible rows of the group. Sorting has no ties that it
  could settle in another way among fewer rows, so they come in the same order
  (`sorted_withFilter`) and the view has one partition, the group (`partitions_onlyGroup`).
  Aggregates and window calls see nothing but the rows of a partition: they have the same results
  in the view as in the whole (`read_onlyGroup`), and so have the expressions that are made of
  them (`groups_apart`).
-/
import ColumnQuery.Proofs.Overlay.Sorted
import ColumnQuery.Proofs.View.Computed
import ColumnQuery.Proofs.View.Reachable

namespace ColumnQuery

namespace View

variable {v : View} {key : RowKey} {g : Nat}

/-! ## Selected rows -/

/-- A set of visible rows. -/
structure Selects (v : View) (f : BitSet) : Prop where
  wellFormed : f.WellFormed
  length_eq : f.length = v.totalRows
  visible : ∀ row, f.contains row = true → row ∈ v.visible

theorem Sound.visible_withFilter (hv : v.Sound key) {f : BitSet} (hf : v.Selects f) :
    (v.withFilter f).visible = v.visible.filter f.contains := by
  have hfiltered := hv.withFilter hf.wellFormed hf.length_eq
  refine List.Pairwise.eq_of_mem_iff hfiltered.pairwise_visible (hv.pairwise_visible.filter _)
    fun row => ?_
  rw [hfiltered.mem_visible, List.mem_filter]
  exact ⟨fun h => ⟨hf.visible row h.2, h.2⟩, fun h => ⟨hv.lt_of_visible h.1, h.2⟩⟩

/-- Selected rows come in the same order by themselves. -/
theorem Sound.sorted_withFilter (hv : v.Sound key) {f : BitSet} (hf : v.Selects f)
    {rows : List Nat} (hrows : v.sorted = some rows) :
    (v.withFilter f).sorted = some (rows.filter f.contains) := by
  have horder : (v.withFilter f).order = v.order := rfl
  have hvisible := hv.visible_withFilter hf
  unfold sorted at hrows ⊢
  rw [horder, hvisible]
  cases ho : v.order with
  | none =>
    rw [ho] at hrows
    obtain rfl : v.visible = rows := Option.some.inj hrows
    rfl
  | some o =>
    rw [ho] at hrows
    have hsorted := RowOrder.eq_sort_of_sort? hrows
    have hlt : ∀ row ∈ v.visible.filter f.contains, row < v.totalRows := fun row hrow =>
      hv.lt_of_visible (List.mem_filter.1 hrow).1
    dsimp only
    rw [(hv.order o ho).sort?_eq hlt, hsorted]
    exact congrArg some (o.sort_filter hv.pairwise_visible _)

/-! ## Rows of a group -/

/-- The visible rows of a group, in a view without groups. -/
def onlyGroup (v : View) (g : Nat) : View :=
  v.ungroup.withFilter
    (.ofPredicate v.totalRows fun row => v.visible.contains row && v.groupOf row == some g)

/-- The set of the visible rows of a group. -/
theorem Sound.selects_onlyGroup (hv : v.Sound key) (g : Nat) : ∃ f, v.ungroup.Selects f ∧
    v.onlyGroup g = v.ungroup.withFilter f ∧
    ∀ row ∈ v.visible, f.contains row = (v.groupOf row == some g) := by
  obtain ⟨hwf, hlength, hcontains⟩ := BitSet.ofPredicate_spec v.totalRows
    fun row => v.visible.contains row && v.groupOf row == some g
  refine ⟨_, ⟨hwf, hlength, fun row hrow => ?_⟩, rfl, fun row hrow => ?_⟩
  · rw [hcontains, Bool.and_eq_true, Bool.and_eq_true] at hrow
    exact List.contains_iff_mem.1 hrow.2.1
  · rw [hcontains, decide_eq_true (hv.lt_of_visible hrow), List.contains_iff_mem.2 hrow,
      Bool.true_and, Bool.true_and]

theorem Sound.onlyGroup (hv : v.Sound key) (g : Nat) : (v.onlyGroup g).Sound key := by
  obtain ⟨f, hf, heq, -⟩ := hv.selects_onlyGroup g
  rw [heq]
  exact hv.ungroup.withFilter hf.wellFormed hf.length_eq

theorem Sound.visible_onlyGroup (hv : v.Sound key) (g : Nat) :
    (v.onlyGroup g).visible = v.groupRows v.visible g := by
  obtain ⟨f, hf, heq, hcontains⟩ := hv.selects_onlyGroup g
  rw [heq, hv.ungroup.visible_withFilter hf]
  exact List.filter_congr hcontains

/-- The rows of a group come in the same order by themselves. -/
theorem Sound.sorted_onlyGroup (hv : v.Sound key) {rows : List Nat} (hrows : v.sorted = some rows)
    (g : Nat) : (v.onlyGroup g).sorted = some (v.groupRows rows g) := by
  obtain ⟨f, hf, heq, hcontains⟩ := hv.selects_onlyGroup g
  rw [heq, hv.ungroup.sorted_withFilter hf hrows]
  exact congrArg some (List.filter_congr fun row hrow =>
    hcontains row ((perm_of_sorted hrows).mem_iff.1 hrow))

/-- Without groups all rows are in one group. -/
theorem groupRows_onlyGroup (v : View) (g : Nat) (rows : List Nat) :
    (v.onlyGroup g).groupRows rows 0 = rows :=
  List.filter_eq_self.2 fun _ _ => rfl

theorem Sound.partitions_onlyGroup (hv : v.Sound key) {rows : List Nat}
    (hrows : v.sorted = some rows) (g : Nat) :
    (v.onlyGroup g).partitions true = some [v.groupRows rows g] := by
  have hindices : (v.onlyGroup g).indices true = some (v.groupRows rows g) :=
    hv.sorted_onlyGroup hrows g
  unfold partitions
  rw [hindices]
  show some [(v.onlyGroup g).groupRows (v.groupRows rows g) 0] = _
  rw [groupRows_onlyGroup]

/-! ## Results of calls -/

theorem read_aggregate_of_le {r : OperatorResults} {n : Nat} (hn : r.aggregates.length ≤ n)
    (row : Nat) : r.read (.aggregate n) row = .null := by
  unfold OperatorResults.read
  simp only [List.getElem?_eq_none hn]
  rfl

theorem read_window_of_le {r : OperatorResults} {n : Nat} (hn : r.windows.length ≤ n)
    (row : Nat) : r.read (.window n) row = .null := by
  unfold OperatorResults.read
  simp only [List.getElem?_eq_none hn]
  rfl

variable {calls : List AggregateCall} {windows : List WindowCall}

/-- An aggregate over a group has the same results among all groups and in the view of the group
    alone. -/
theorem Sound.aggregates_onlyGroup (hv : v.Sound key) (hcalls : Registered [v.data] calls windows)
    (hg : g < v.groupCount) : ∃ results alone, v.aggregates calls = some results ∧
      (v.onlyGroup g).aggregates calls = some alone ∧
      results.length = calls.length ∧ alone.length = calls.length ∧
      ∀ n < calls.length, ∃ (cells others : List Value) (x : Value), results[n]? = some cells ∧
        alone[n]? = some others ∧ cells[g]? = some x ∧ others[0]? = some x := by
  obtain ⟨rows, results, hrows, hresults, hlength, hcells⟩ := hv.aggregates_cells hcalls
  obtain ⟨rows', alone, hrows', halone, hlength', hothers⟩ :=
    (hv.onlyGroup g).aggregates_cells hcalls
  obtain ⟨answers, hanswers, hcells⟩ := hcells g hg
  obtain ⟨answers', hanswers', hothers⟩ := hothers 0 Nat.zero_lt_one
  -- both are asked over the same rows
  rw [hv.sorted_onlyGroup hrows g] at hrows'
  obtain rfl : v.groupRows rows g = rows' := Option.some.inj hrows'
  rw [groupRows_onlyGroup, hanswers] at hanswers'
  obtain rfl : answers = answers' := Option.some.inj hanswers'
  refine ⟨results, alone, hresults, halone, hlength, hlength', fun n hn => ?_⟩
  obtain ⟨cells, hn', hx⟩ := hcells n hn
  obtain ⟨others, hn'', hx'⟩ := hothers n hn
  exact ⟨cells, others, _, hn', hn'', hx, hx'⟩

/-- A window call has the same results at the rows of a group among all groups and in the view of
    the group alone. -/
theorem Sound.windows_onlyGroup (hv : v.Sound key) (hcalls : Registered [v.data] calls windows)
    (hg : g < v.groupCount) : ∃ results alone, v.windows windows = some results ∧
      (v.onlyGroup g).windows windows = some alone ∧
      results.length = windows.length ∧ alone.length = windows.length ∧
      ∀ n < windows.length, ∀ row ∈ v.visible, v.groupOf row = some g →
        ∃ (cells others : Array Value) (x : Value), results[n]? = some cells ∧
          alone[n]? = some others ∧ cells[row]? = some x ∧ others[row]? = some x := by
  obtain ⟨rows, hrows, hperm⟩ := hv.exists_sorted
  obtain ⟨parts, results, hparts, hresults, hlength, hcells⟩ := hv.windows_cells hcalls
  obtain ⟨parts', alone, hparts', halone, hlength', hothers⟩ :=
    (hv.onlyGroup g).windows_cells hcalls
  rw [hv.partitions_onlyGroup hrows g] at hparts'
  obtain rfl : [v.groupRows rows g] = parts' := Option.some.inj hparts'
  refine ⟨results, alone, hresults, halone, hlength, hlength', fun n hn row hrow hgroup => ?_⟩
  have hmem : row ∈ v.groupRows rows g :=
    List.mem_filter.2 ⟨hperm.mem_iff.2 hrow, beq_iff_eq.2 hgroup⟩
  have hne := List.ne_nil_of_mem hmem
  obtain ⟨i, hi⟩ := List.mem_iff_getElem?.1 hmem
  obtain ⟨entries, hentries, hcells⟩ := hcells _ (groupRows_mem_partitions hrows hparts hg) hne
  obtain ⟨entries', hentries', hothers⟩ := hothers _ List.mem_cons_self hne
  -- the partition answers alike, since rows tie alike
  have hsame : (v.onlyGroup g).partitionValues windows (v.groupRows rows g)
      = v.partitionValues windows (v.groupRows rows g) := rfl
  rw [hsame, hentries] at hentries'
  obtain rfl : entries = entries' := Option.some.inj hentries'
  obtain ⟨cells, hn', hx⟩ := hcells n hn
  obtain ⟨others, hn'', hx'⟩ := hothers n hn
  exact ⟨cells, others, _, hn', hn'', hx i row hi, hx' i row hi⟩

/-- Every call reads alike at the rows of a group, or at the group and at the only group. -/
theorem Sound.read_onlyGroup (hv : v.Sound key) {r : Resolution}
    (hcalls : Registered [v.data] r.aggregates r.windows) (hg : g < v.groupCount)
    (group group' : Nat → Option Nat) : ∃ results alone, v.operators r group = some results ∧
      (v.onlyGroup g).operators r group' = some alone ∧
      (∀ n row row', group row = some g → group' row' = some 0 →
        results.read (.aggregate n) row = alone.read (.aggregate n) row') ∧
      ∀ n, ∀ row ∈ v.visible, v.groupOf row = some g →
        results.read (.window n) row = alone.read (.window n) row := by
  obtain ⟨aggregates, aggregates', haggregates, haggregates', hlength, hlength', hcells⟩ :=
    hv.aggregates_onlyGroup hcalls hg
  obtain ⟨windows, windows', hwindows, hwindows', hcount, hcount', hplaces⟩ :=
    hv.windows_onlyGroup hcalls hg
  refine ⟨⟨aggregates, windows, group⟩, ⟨aggregates', windows', group'⟩,
    operators_eq haggregates hwindows group, operators_eq haggregates' hwindows' group', ?_, ?_⟩
  · intro n row row' hrow hrow'
    by_cases hn : n < r.aggregates.length
    · obtain ⟨cells, others, x, hn', hn'', hx, hx'⟩ := hcells n hn
      rw [read_aggregate hn' hrow hx, read_aggregate hn'' hrow' hx']
    · rw [read_aggregate_of_le (by rw [hlength]; omega),
        read_aggregate_of_le (by rw [hlength']; omega)]
  · intro n row hrow hgroup
    by_cases hn : n < r.windows.length
    · obtain ⟨cells, others, x, hn', hn'', hx, hx'⟩ := hplaces n hn row hrow hgroup
      rw [read_window hn' hx, read_window hn'' hx']
    · rw [read_window_of_le (by rw [hcount]; omega), read_window_of_le (by rw [hcount']; omega)]

/-! ## Expressions -/

variable {exprs : List (String × ExprSpec)} {r : Resolution}

/-- A row-wise expression has a value at every row of the table, whatever its calls result in. -/
theorem Sound.exists_evalRow_of_derive (hv : v.Sound key)
    (hr : v.resolve exprs .derive = .ok r) (hexprs : ∀ e ∈ exprs, e.2.escapes = false)
    {e : NamedFormula} (he : e ∈ r.exprs) (results : OperatorResults) {row : Nat}
    (hrow : row < v.totalRows) : ∃ x, e.formula.evalRow results.lookup row = some x :=
  (reads_of_resolve hexprs hr e he).exists_eval (List.forall_mem_singleton.2 hv.table)
    (fun _ => within_of_lt hrow) fun _ _ => rfl

/-- An expression over groups has a value at every group, since it reads no column itself. -/
theorem Sound.exists_evalRow_of_rollup (hv : v.Sound key)
    (hr : v.resolve exprs .rollup = .ok r) (hexprs : ∀ e ∈ exprs, e.2.escapes = false)
    {e : NamedFormula} (he : e ∈ r.exprs) (results : OperatorResults) (group : Nat) :
    ∃ x, e.formula.evalRow results.lookup group = some x :=
  (reads_of_resolve hexprs hr e he).exists_eval (List.forall_mem_singleton.2 hv.table) nofun
    fun _ _ => rfl

/-- Deriving columns gives the rows of a group the same cells among all groups and in the view of
    the group alone. -/
theorem Sound.derive_onlyGroup (hv : v.Sound key) (hr : v.resolve exprs .derive = .ok r)
    (hexprs : ∀ e ∈ exprs, e.2.escapes = false) (hg : g < v.groupCount) :
    ∃ w part, v.derive exprs = .ok w ∧ (v.onlyGroup g).derive exprs = .ok part ∧
      ∀ row ∈ v.visible, v.groupOf row = some g →
        (∀ name, w.data.valueAt? name row = part.data.valueAt? name row) ∧
        ∀ name ∈ exprs.map (·.1), ∃ x, w.data.valueAt? name row = some x := by
  have hreads := reads_of_resolve hexprs hr
  have hnames := names_of_resolve hr
  obtain ⟨results, alone, hresults, halone, haggregate, hwindow⟩ :=
    hv.read_onlyGroup (registered_of_resolve hr) hg v.groupOf (v.onlyGroup g).groupOf
  obtain ⟨w, hw, hcell⟩ := hv.derive_spec hr hresults fun e he row hrow =>
    hv.exists_evalRow_of_derive hr hexprs he results (hv.lt_of_visible hrow)
  obtain ⟨part, hpart, hcell'⟩ := (hv.onlyGroup g).derive_spec hr halone fun e he row hrow =>
    hv.exists_evalRow_of_derive hr hexprs he alone ((hv.onlyGroup g).lt_of_visible hrow)
  refine ⟨w, part, hw, hpart, fun row hrow hgroup => ?_⟩
  have hvisible : row ∈ (v.onlyGroup g).visible := by
    rw [hv.visible_onlyGroup g]
    exact List.mem_filter.2 ⟨hrow, beq_iff_eq.2 hgroup⟩
  have hread : ∀ ref, results.read ref row = alone.read ref row
    | .aggregate n => haggregate n row row hgroup rfl
    | .window n => hwindow n row hrow hgroup
  refine ⟨fun name => ?_, fun name hname => ?_⟩
  · rw [hcell row hrow name, hcell' row hvisible name]
    cases hlast : lastNamed? r.exprs name with
    | none => rfl
    | some e =>
      exact (hreads e (mem_of_lastNamed? hlast)).eval_congr (fun _ => rfl) fun ref _ =>
        congrArg some (hread ref)
  · obtain ⟨e, hlast⟩ := exists_lastNamed? (hnames ▸ hname)
    rw [hcell row hrow name, hlast]
    exact hv.exists_evalRow_of_derive hr hexprs (mem_of_lastNamed? hlast) results
      (hv.lt_of_visible hrow)

/-- A roll-up gives a group the same cells among all groups and in the view of the group alone,
    where it has a single row. -/
theorem Sound.rollup_onlyGroup (hv : v.Sound key) (hr : v.resolve exprs .rollup = .ok r)
    (hexprs : ∀ e ∈ exprs, e.2.escapes = false) (hg : g < v.groupCount) :
    ∃ part, (v.onlyGroup g).rollup exprs = .ok part ∧ part.totalRows = 1 ∧
      ∀ keys, v.keyTable = .ok keys → ∃ w, v.rollup exprs = .ok w ∧
        w.totalRows = v.groupCount ∧ ∀ name ∈ exprs.map (·.1),
          ∃ x, w.data.valueAt? name g = some x ∧ part.data.valueAt? name 0 = some x := by
  have hreads := reads_of_resolve hexprs hr
  have hnames := names_of_resolve hr
  obtain ⟨results, alone, hresults, halone, haggregate, -⟩ :=
    hv.read_onlyGroup (registered_of_resolve hr) hg some some
  obtain ⟨part, hpart, hcount, hcell'⟩ := rollup_spec (v := v.onlyGroup g) hr halone rfl
    fun e he group _ => hv.exists_evalRow_of_rollup hr hexprs he alone group
  refine ⟨part, hpart, hcount, fun keys hkeys => ?_⟩
  obtain ⟨w, hw, hrows, hcell⟩ := rollup_spec hr hresults hkeys fun e he group _ =>
    hv.exists_evalRow_of_rollup hr hexprs he results group
  refine ⟨w, hw, hrows, fun name hname => ?_⟩
  obtain ⟨e, hlast⟩ := exists_lastNamed? (hnames ▸ hname)
  have he := mem_of_lastNamed? hlast
  obtain ⟨x, hx⟩ := hv.exists_evalRow_of_rollup hr hexprs he results g
  refine ⟨x, by rw [hcell g hg name e hlast, hx], ?_⟩
  -- window calls are not allowed here, so only results of aggregates are read
  have hsame : e.formula.evalRow results.lookup g = e.formula.evalRow alone.lookup 0 :=
    (hreads e he).eval_congr nofun fun ref href => by
      cases ref with
      | aggregate n => exact congrArg some (haggregate n g 0 rfl rfl)
      | window n => cases href.2
  rw [hcell' 0 Nat.zero_lt_one name e hlast, ← hsame, hx]

/-- Groups are independent of each other: what derived columns show at the visible rows of a group,
    and what a roll-up shows for it, is what they show in a view of these rows alone. -/
theorem groups_apart (hv : Reachable v) (hg : g < v.groupCount)
    (hexprs : ∀ e ∈ exprs, e.2.escapes = false) :
    (∀ r, v.resolve exprs .derive = .ok r →
      ∃ w part, v.derive exprs = .ok w ∧ (v.onlyGroup g).derive exprs = .ok part ∧
        ∀ row ∈ v.visible, v.groupOf row = some g →
          (∀ name, w.data.valueAt? name row = part.data.valueAt? name row) ∧
          ∀ name ∈ exprs.map (·.1), ∃ x, w.data.valueAt? name row = some x) ∧
    (∀ r, v.resolve exprs .rollup = .ok r →
      ∃ part, (v.onlyGroup g).rollup exprs = .ok part ∧ part.totalRows = 1 ∧
        ((∀ groups, v.groups = some groups → groups.shown.names.Nodup) →
          ∃ w, v.rollup exprs = .ok w) ∧
        ∀ w, v.rollup exprs = .ok w → w.totalRows = v.groupCount ∧
          ∀ name ∈ exprs.map (·.1),
            ∃ x, w.data.valueAt? name g = some x ∧ part.data.valueAt? name 0 = some x) := by
  obtain ⟨key, hreach⟩ := hv
  have hsound := sound_of_reachable hreach
  refine ⟨fun r hr => hsound.derive_onlyGroup hr hexprs hg, fun r hr => ?_⟩
  obtain ⟨part, hpart, hcount, hspec⟩ := hsound.rollup_onlyGroup hr hexprs hg
  refine ⟨part, hpart, hcount, fun hnames => ?_, fun w hw => ?_⟩
  · obtain ⟨keys, hkeys⟩ := exists_keyTable hnames
    obtain ⟨w, hw, -⟩ := hspec keys hkeys
    exact ⟨w, hw⟩
  · obtain ⟨keys, hkeys⟩ := exists_keyTable_of_rollup hw
    obtain ⟨w', hw', hrows, hcells⟩ := hspec keys hkeys
    obtain rfl : w' = w := Except.ok.inj (hw'.symm.trans hw)
    exact ⟨hrows, hcells⟩

/-- The number of rows. -/
def rowCounts : List (String × ExprSpec) := [("n", .tree (.call (.identifier "count") []))]

/-- There are two rows with the first letter, in a view of all letters and by themselves. -/
theorem groups_apart_letters : ∃ v w part rolled single x y,
    (View.ofTable letters).groupBy ["x"] = .ok v ∧
    v.derive rowCounts = .ok w ∧ (v.onlyGroup 0).derive rowCounts = .ok part ∧
    v.rollup rowCounts = .ok rolled ∧ (v.onlyGroup 0).rollup rowCounts = .ok single ∧
    w.data.valueAt? "n" 2 = some x ∧ part.data.valueAt? "n" 2 = some x ∧
    rolled.data.valueAt? "n" 0 = some y ∧ single.data.valueAt? "n" 0 = some y := by
  obtain ⟨v, hgrouped, hreach, hcount, hvisible, hgroup, hnames, hresolve⟩ :=
    exists_groupBy_letters
  have hplain : ∀ e ∈ rowCounts, e.2.escapes = false := by simp [rowCounts, ExprSpec.escapes]
  obtain ⟨r, hr, -⟩ := exists_ok (x := (View.ofTable letters).resolve rowCounts .derive)
    (p := fun _ => true) (by decide +kernel)
  obtain ⟨r', hr', -⟩ := exists_ok (x := (View.ofTable letters).resolve rowCounts .rollup)
    (p := fun _ => true) (by decide +kernel)
  obtain ⟨hrows, hgroups⟩ := groups_apart hreach (g := 0) (by omega) hplain
  obtain ⟨w, part, hw, hpart, hcells⟩ := hrows r (by rw [hresolve, hr])
  obtain ⟨single, hsingle, -, hexists, hcell⟩ := hgroups r' (by rw [hresolve, hr'])
  obtain ⟨rolled, hrolled⟩ := hexists hnames
  obtain ⟨-, hcell⟩ := hcell rolled hrolled
  obtain ⟨y, hy, hy'⟩ := hcell "n" (by simp [rowCounts])
  obtain ⟨hsame, hvalue⟩ := hcells 2 hvisible hgroup
  obtain ⟨x, hx⟩ := hvalue "n" (by simp [rowCounts])
  exact ⟨v, w, part, rolled, single, x, y, hgrouped, hw, hpart, hrolled, hsingle, hx,
    (hsame "n").symm.trans hx, hy, hy'⟩

end View

end ColumnQuery
