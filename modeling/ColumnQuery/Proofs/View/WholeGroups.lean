/-
  The ways to an aggregate of whole groups.

  A call of an aggregate can be asked for row by row, group by group, or row by row under a frame
  without bounds. The first two collect the rows of all groups in one pass; the third slides over
  one partition after the other, where all rows come in at the first position and none ever goes.
  All of them see the rows of a group in the same order and keep up the same state, so each gives
  the aggregate over the rows of the group, computed afresh (`wholeGroup?`): the columns that they
  make agree (`derive_aggregate`, `derive_rolling`, `rollup_aggregate`), numbers to the last bit.
  Since a call has the same fields and parameters wherever it is written, the three ways agree for
  every expression that is a call (`aggregate_ways`).
-/
import ColumnQuery.Proofs.Formula.Calls
import ColumnQuery.Proofs.View.Computed
import ColumnQuery.Proofs.View.Reachable

namespace ColumnQuery

/-- The value of an aggregate over the fields at some rows, computed afresh. -/
def AggregateOp.over? (op : AggregateOp) (fields : List Formula) (rows : List Nat) :
    Option Value := (rows.mapM (Formula.evalKey fields)).map op.fresh

namespace View

variable {v : View} {key : RowKey} {a : Aggregate} {fields : List Formula} {trees : List Node}
  {params : List Value} {tied : Bool}

/-- The value of an aggregate over the rows of a group in order. -/
def wholeGroup? (v : View) (op : AggregateOp) (fields : List Formula) (g : Nat) : Option Value :=
  v.sorted.bind fun rows => op.over? fields (v.groupRows rows g)

/-! ## Results of a call by itself -/

/-- The cell of a group is the aggregate over its rows. -/
theorem Sound.aggregates_alone (hv : v.Sound key)
    (hcall : Registered [v.data] [⟨a, fields, trees, params⟩] []) :
    ∃ results, v.aggregates [⟨a, fields, trees, params⟩] = some results ∧
      ∀ g < v.groupCount, ∃ cells x, results[0]? = some cells ∧ cells[g]? = some x ∧
        v.wholeGroup? ⟨a, params⟩ fields g = some x := by
  obtain ⟨rows, results, hrows, hresults, -, hcells⟩ := hv.aggregates_cells hcall
  refine ⟨results, hresults, fun g hg => ?_⟩
  obtain ⟨answers, hanswers, hcells⟩ := hcells g hg
  obtain ⟨cells, hn, hcell⟩ := hcells 0 Nat.zero_lt_one
  obtain ⟨x, hx, observed, hobserved, rfl⟩ := lookup_groupAnswers hcall hanswers (n := 0) rfl
  refine ⟨cells, _, hn, by rw [hcell, hx], ?_⟩
  rw [AggregateCall.leader_singleton] at hobserved
  unfold wholeGroup? AggregateOp.over?
  rw [hrows, Option.bind_some, hobserved]
  rfl

/-- What slides over a partition without bounds is the aggregate over all its rows. -/
theorem over?_of_slidesOver {peers : Peers} {rows : List Nat} {values : List Value}
    (hp : peers.WellFormed) (hsize : peers.size = rows.length)
    (h : WindowStream.SlidesOver [⟨.aggregate a, fields, trees, params, ⟨none, none, tied⟩⟩]
      ⟨.aggregate a, fields, trees, params, ⟨none, none, tied⟩⟩ a peers rows values)
    {i : Nat} (hi : i < rows.length) :
    ∃ x, values[i]? = some x ∧ AggregateOp.over? ⟨a, params⟩ fields rows = some x := by
  obtain ⟨observed, r, place, hobserved, hordered, hop, rfl⟩ := h
  rw [WindowCall.leader_singleton] at hobserved
  have hlength : observed.toArray.size = peers.size := by
    rw [List.size_toArray, length_of_mapM hobserved, hsize]
  have hi' : i < peers.size := by omega
  have hfresh : r.valueAt (r.run r.start
      ((⟨none, none, tied⟩ : Frame).events peers observed.toArray i)) place
        = AggregateOp.fresh ⟨a, params⟩ observed := by
    rw [Frame.events_unbounded hp tied hlength hi', Reducer.run_enter,
      Reducer.valueAt_addAll_eq_fresh hordered hop]
  refine ⟨AggregateOp.fresh ⟨a, params⟩ observed, ?_, ?_⟩
  · rw [List.getElem?_map, List.getElem?_range hi', Option.map_some, hfresh]
  · unfold AggregateOp.over?
    rw [hobserved]
    rfl

/-- Under a frame without bounds the cell of a row is the aggregate over the rows of its group. -/
theorem Sound.windows_alone (hv : v.Sound key) (hcall : Registered [v.data] []
      [⟨.aggregate a, fields, trees, params, ⟨none, none, tied⟩⟩]) :
    ∃ results, v.windows [⟨.aggregate a, fields, trees, params, ⟨none, none, tied⟩⟩]
        = some results ∧
      ∀ row ∈ v.visible, ∀ g < v.groupCount, v.groupOf row = some g →
        ∃ cells x, results[0]? = some cells ∧ cells[row]? = some x ∧
          v.wholeGroup? ⟨a, params⟩ fields g = some x := by
  obtain ⟨rows, hrows, hperm⟩ := hv.exists_sorted
  obtain ⟨parts, results, hparts, hresults, hcells⟩ := hv.windows_spec hcall
  refine ⟨results, hresults, fun row hrow g hg hgroup => ?_⟩
  -- the row stands somewhere in the partition of its group
  have hmem : row ∈ v.groupRows rows g :=
    List.mem_filter.2 ⟨hperm.mem_iff.2 hrow, beq_iff_eq.2 hgroup⟩
  have hpart := groupRows_mem_partitions hrows hparts hg
  obtain ⟨i, hi⟩ := List.mem_iff_getElem?.1 hmem
  obtain ⟨cells, values, hn, hslides, hcell⟩ :=
    hcells _ hpart (List.ne_nil_of_mem hmem) 0 _ a rfl rfl
  obtain ⟨x, hx, hover⟩ := over?_of_slidesOver (v.wellFormed_peers _) (v.size_peers _) hslides
    (List.getElem?_eq_some_iff.1 hi).1
  refine ⟨cells, x, hn, (hcell i row hi).trans hx, ?_⟩
  unfold wholeGroup?
  rw [hrows, Option.bind_some, hover]

/-! ## Columns of a call by itself -/

variable {name : String} {e : ExprSpec} {tree : Option Node}

/-- Such an aggregate has a value in every group. -/
theorem Sound.exists_wholeGroup (hv : v.Sound key) (hr : v.resolve [(name, e)] .derive
      = .ok ⟨[⟨name, .op (.aggregate 0), tree⟩], [⟨a, fields, trees, params⟩], [], false⟩)
    {g : Nat} (hg : g < v.groupCount) : ∃ x, v.wholeGroup? ⟨a, params⟩ fields g = some x := by
  obtain ⟨results, -, hcells⟩ := hv.aggregates_alone (registered_of_resolve hr)
  obtain ⟨cells, x, -, -, hx⟩ := hcells g hg
  exact ⟨x, hx⟩

/-- A derived aggregate. -/
theorem Sound.derive_aggregate (hv : v.Sound key) (hr : v.resolve [(name, e)] .derive
      = .ok ⟨[⟨name, .op (.aggregate 0), tree⟩], [⟨a, fields, trees, params⟩], [], false⟩) :
    ∃ w, v.derive [(name, e)] = .ok w ∧
      ∀ row ∈ v.visible, ∀ g < v.groupCount, v.groupOf row = some g →
        w.data.valueAt? name row = v.wholeGroup? ⟨a, params⟩ fields g := by
  obtain ⟨results, hresults, hcells⟩ := hv.aggregates_alone (registered_of_resolve hr)
  obtain ⟨w, hw, hcell⟩ := hv.derive_op hr rfl (operators_eq hresults rfl v.groupOf)
  refine ⟨w, hw, fun row hrow g hg hgroup => ?_⟩
  obtain ⟨cells, x, hn, hx, hwhole⟩ := hcells g hg
  rw [hcell row hrow, hwhole, read_aggregate hn hgroup hx]

/-- A derived aggregate under a frame without bounds. -/
theorem Sound.derive_rolling (hv : v.Sound key) (hr : v.resolve [(name, e)] .derive
      = .ok ⟨[⟨name, .op (.window 0), tree⟩], [],
        [⟨.aggregate a, fields, trees, params, ⟨none, none, tied⟩⟩], false⟩) :
    ∃ w, v.derive [(name, e)] = .ok w ∧
      ∀ row ∈ v.visible, ∀ g < v.groupCount, v.groupOf row = some g →
        w.data.valueAt? name row = v.wholeGroup? ⟨a, params⟩ fields g := by
  obtain ⟨results, hresults, hcells⟩ := hv.windows_alone (registered_of_resolve hr)
  obtain ⟨w, hw, hcell⟩ := hv.derive_op hr rfl (operators_eq rfl hresults v.groupOf)
  refine ⟨w, hw, fun row hrow g hg hgroup => ?_⟩
  obtain ⟨cells, x, hn, hx, hwhole⟩ := hcells row hrow g hg hgroup
  rw [hcell row hrow, hwhole, read_window hn hx]

/-- A rolled up aggregate. -/
theorem Sound.rollup_aggregate (hv : v.Sound key) (hr : v.resolve [(name, e)] .rollup
      = .ok ⟨[⟨name, .op (.aggregate 0), tree⟩], [⟨a, fields, trees, params⟩], [], false⟩)
    {keys : Table} (hkeys : v.keyTable = .ok keys) :
    ∃ w, v.rollup [(name, e)] = .ok w ∧
      ∀ g < v.groupCount, w.data.valueAt? name g = v.wholeGroup? ⟨a, params⟩ fields g := by
  obtain ⟨results, hresults, hcells⟩ := hv.aggregates_alone (registered_of_resolve hr)
  obtain ⟨w, hw, hcell⟩ := rollup_op hr rfl (operators_eq hresults rfl some) hkeys
  refine ⟨w, hw, fun g hg => ?_⟩
  obtain ⟨cells, x, hn, hx, hwhole⟩ := hcells g hg
  rw [hcell g hg, hwhole, read_aggregate hn rfl hx]

/-! ## Expressions that are calls -/

/-- The value of a call of an aggregate is the same in three ways: derived at a visible row,
    rolled up for the group of the row, and derived at the row under a frame without bounds, with
    peers or without. It is the aggregate of the call over the rows of the group in order. The
    three are there whenever the call can be derived, but that a roll-up needs different names for
    the keys of the groups. -/
theorem aggregate_ways (hv : Reachable v) {plain rolling : ExprSpec} {scope : Scope} {call : Node}
    (ha : call.aggregate? = some a)
    (hplain : plain.placed? 1 none = some (⟨scope, none, false⟩, call))
    (hrolling : rolling.placed? 1 none = some (⟨scope, some ⟨none, none, tied⟩, false⟩, call))
    {r : Resolution} (hr : v.resolve [(name, plain)] .derive = .ok r) :
    ∃ o w running, Resolve.IsCall ⟨[v.data], v.params, .derive⟩ scope call a o ∧
      v.derive [(name, plain)] = .ok w ∧ v.derive [(name, rolling)] = .ok running ∧
      ((∀ groups, v.groups = some groups → groups.shown.names.Nodup) →
        ∃ rolled, v.rollup [(name, plain)] = .ok rolled) ∧
      ∀ row ∈ v.visible, ∃ g x, v.groupOf row = some g ∧
        v.wholeGroup? ⟨a, o.values⟩ o.formulas g = some x ∧
        w.data.valueAt? name row = some x ∧ running.data.valueAt? name row = some x ∧
        ∀ rolled, v.rollup [(name, plain)] = .ok rolled → rolled.data.valueAt? name g = some x := by
  obtain ⟨key, hreach⟩ := hv
  have hsound := sound_of_reachable hreach
  -- the call has the same fields and the same parameters in all three
  have hcall : ∃ o, Resolve.IsCall ⟨[v.data], v.params, .derive⟩ scope call a o :=
    Resolve.exists_isCall hplain ha hr
  obtain ⟨o, ho⟩ := hcall
  have hderive : ∃ tree, v.resolve [(name, plain)] .derive
      = .ok ⟨[⟨name, .op (.aggregate 0), tree⟩], [⟨a, o.formulas, o.key, o.values⟩], [], false⟩ :=
    ho.resolve_call rfl rfl hplain rfl
  have hrollup : ∃ tree, v.resolve [(name, plain)] .rollup
      = .ok ⟨[⟨name, .op (.aggregate 0), tree⟩], [⟨a, o.formulas, o.key, o.values⟩], [], false⟩ :=
    ho.resolve_call rfl rfl hplain rfl
  have hslide : ∃ tree, v.resolve [(name, rolling)] .derive
      = .ok ⟨[⟨name, .op (.window 0), tree⟩], [],
        [⟨.aggregate a, o.formulas, o.key, o.values, ⟨none, none, tied⟩⟩], false⟩ :=
    ho.resolve_rollingCall rfl rfl hrolling rfl
  obtain ⟨_, hderive⟩ := hderive
  obtain ⟨_, hrollup⟩ := hrollup
  obtain ⟨_, hslide⟩ := hslide
  obtain ⟨w, hw, hcell⟩ := hsound.derive_aggregate hderive
  obtain ⟨running, hrunning, hcell'⟩ := hsound.derive_rolling hslide
  refine ⟨o, w, running, ho, hw, hrunning, fun hnames => ?_, fun row hrow => ?_⟩
  · obtain ⟨keys, hkeys⟩ := exists_keyTable hnames
    obtain ⟨rolled, hrolled, -⟩ := hsound.rollup_aggregate hrollup hkeys
    exact ⟨rolled, hrolled⟩
  · obtain ⟨g, hg, hgroup⟩ := hsound.exists_groupOf hrow
    obtain ⟨x, hx⟩ := hsound.exists_wholeGroup hderive hg
    refine ⟨g, x, hgroup, hx, (hcell row hrow g hg hgroup).trans hx,
      (hcell' row hrow g hg hgroup).trans hx, fun rolled hrolled => ?_⟩
    obtain ⟨keys, hkeys⟩ := exists_keyTable_of_rollup hrolled
    obtain ⟨rolled', hrolled', hcell''⟩ := hsound.rollup_aggregate hrollup hkeys
    obtain rfl : rolled' = rolled := Except.ok.inj (hrolled'.symm.trans hrolled)
    exact (hcell'' g hg).trans hx

/-- The greatest of the letters. -/
def greatest : ExprSpec := .tree (.call (.identifier "max") [.column 0 "x"])

/-- The greatest letter of a group, in three ways. -/
theorem aggregate_ways_letters : ∃ v w running rolled x,
    (View.ofTable letters).groupBy ["x"] = .ok v ∧ v.derive [("m", greatest)] = .ok w ∧
    v.derive [("m", .rolling greatest ⟨none, none, true⟩)] = .ok running ∧
    v.rollup [("m", greatest)] = .ok rolled ∧ w.data.valueAt? "m" 2 = some x ∧
    running.data.valueAt? "m" 2 = some x ∧ rolled.data.valueAt? "m" 0 = some x := by
  obtain ⟨v, hgrouped, hreach, -, hvisible, hgroup, hnames, hresolve⟩ := exists_groupBy_letters
  obtain ⟨r, hr, -⟩ := exists_ok
    (x := (View.ofTable letters).resolve [("m", greatest)] .derive)
    (p := fun _ => true) (by decide +kernel)
  have hplaced : greatest.placed? 1 none = some (⟨Scope.standard 1, none, false⟩,
      .call (.identifier "max") [.column 0 "x"]) := rfl
  obtain ⟨o, w, running, -, hw, hrunning, hexists, hcells⟩ :=
    aggregate_ways hreach (a := .max) rfl hplaced
      (ExprSpec.placed?_rolling hplaced ⟨none, none, true⟩) (by rw [hresolve, hr])
  obtain ⟨rolled, hrolled⟩ := hexists hnames
  obtain ⟨g, x, hg, -, hx, hx', hrest⟩ := hcells 2 hvisible
  obtain rfl : g = 0 := Option.some.inj (hg.symm.trans hgroup)
  exact ⟨v, w, running, rolled, x, hgrouped, hw, hrunning, hrolled, hx, hx', hrest rolled hrolled⟩

end View

end ColumnQuery
