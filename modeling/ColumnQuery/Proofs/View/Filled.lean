/-
  Fills over a view.

  A fill has one field, which has a value at every row of a partition (`exists_columns`). One and
  the same fill that goes over the columns of all partitions in turn, whatever it has gone over
  before, answers in each what a new fill answers there, since both answer the nearest valid value
  and there is only one; and that is the result of the call (`Sound.fill_spec`). So the results of
  the fills over a reachable view are the nearest valid values of the partition, or the default of
  the call (`fills_of_reachable`).
-/
import ColumnQuery.Proofs.View.Ranked
import ColumnQuery.Proofs.Window.Fills

namespace ColumnQuery

/-- The values of a field at the rows of a partition. -/
def Formula.columnOver (field : Formula) (rows : List Nat) : Option (Array Value) :=
  (rows.mapM (field.evalRow Env.noResults)).map List.toArray

namespace View

variable {v : View} {key : RowKey} {aggregates : List AggregateCall} {calls : List WindowCall}
  {parts : List (List Nat)} {n : Nat} {call : WindowCall} {f : WindowFunction}

/-- The results of a call at the rows of partitions are what one operator answers that goes over
    the columns of the partitions in turn. -/
def FilledBy {σ : Type} [Stepwise σ] (v : View) (calls : List WindowCall) (n : Nat)
    (parts : List (List Nat)) (columns : List (Array Value)) (s : σ)
    (filled : Array Value → Nat → Value → Prop) : Prop :=
  ∀ (k : Nat) rows, parts[k]? = some rows → ∃ column xs, columns[k]? = some column ∧
    (Stepwise.overPartitions s columns).1[k]? = some xs ∧ ∀ i row : Nat, rows[i]? = some row →
      ∃ x, xs[i]? = some x ∧ v.windowAt? calls n row = some x ∧ filled column i x

theorem Sound.exists_columns (hv : v.Sound key) (hparts : v.partitions true = some parts)
    {field : Formula} (hfield : field.Plain [v.data]) :
    ∃ columns, parts.mapM field.columnOver = some columns := by
  obtain ⟨parts', hparts', -, hlt, -⟩ := hv.partitions_spec
  obtain rfl : parts = parts' := Option.some.inj (hparts.symm.trans hparts')
  refine exists_mapM _ parts fun rows hrows => ?_
  obtain ⟨column, hcolumn⟩ := exists_mapM (field.evalRow Env.noResults) rows fun row hrow =>
    hv.exists_evalRow hfield (hlt rows hrows row hrow)
  exact ⟨column.toArray, by rw [Formula.columnOver, hcolumn]; rfl⟩

/-- What a function of one field answers over a partition. -/
theorem Sound.windowAt?_field (hv : v.Sound key) (hcalls : Registered [v.data] aggregates calls)
    (hparts : v.partitions true = some parts) {rows : List Nat} (hrows : rows ∈ parts)
    (hcall : calls[n]? = some call) (hf : call.operator = .function f) {field : Formula}
    (hfield : call.fields = [field]) {column : Array Value}
    (hcolumn : field.columnOver rows = some column) : column.size = rows.length ∧
      ∀ i row : Nat, rows[i]? = some row →
        v.windowAt? calls n row = some ((f.values call.params (v.peers rows)
          (call.frame.allBounds (v.peers rows)) column)[i]?.getD .null) := by
  obtain ⟨cells, hcells, rfl⟩ := Option.map_eq_some_iff.1 hcolumn
  refine ⟨length_of_mapM hcells, fun i row hrow => ?_⟩
  have hne : rows ≠ [] := by
    rintro rfl
    cases hrow
  obtain ⟨entries, hentries, hanswer⟩ := hv.windowAt?_eq hcalls hparts hrows hne
  obtain ⟨values, hvalues, fields, hfields, rfl⟩ := lookup_function hcalls hentries hcall hf
  rw [hfield, List.mapM_cons, hcells] at hfields
  obtain rfl : [cells] = fields := Option.some.inj hfields
  rw [hanswer n (List.getElem?_eq_some_iff.1 hcall).1 i row hrow, answerAt, hvalues,
    Option.getD_some]
  rfl

section Fill

variable {σ : Type} [Stepwise σ] {kind : σ → Prop} {knows : Array Value → Nat → σ → Prop}
  {filled : Array Value → Nat → Value → Prop}

/-- One operator over all partitions in turn answers what a new one answers in each. -/
theorem Sound.fill_spec (hv : v.Sound key) (hcalls : Registered [v.data] aggregates calls)
    (hparts : v.partitions true = some parts) (hcall : calls[n]? = some call)
    (hf : call.operator = .function f) (hcount : f.fieldCount = 1)
    (hsteps : StepsBy σ kind knows filled)
    (hunique : ∀ {field i x y}, filled field i x → filled field i y → x = y) (new : σ)
    (hnew : kind new) (hvalues : ∀ peers bounds column,
      f.values call.params peers bounds column = (Stepwise.overPartition new column).1) :
    ∃ field columns, call.fields = [field] ∧ parts.mapM field.columnOver = some columns ∧
      ∀ s, kind s → v.FilledBy calls n parts columns s filled := by
  have hsuits := hcalls.windows_suit call (List.mem_of_getElem? hcall)
  have hlength : call.fields.length = 1 := by
    rw [hsuits.fields_length, hf]
    exact hcount
  obtain ⟨field, hfield⟩ := List.length_eq_one_iff.1 hlength
  have hplain : field.Plain [v.data] := hsuits.plain field (by rw [hfield]; exact .head _)
  obtain ⟨columns, hcolumns⟩ := hv.exists_columns hparts hplain
  refine ⟨field, columns, hfield, hcolumns, fun s hs k rows hrows => ?_⟩
  obtain ⟨column, hcolumn⟩ : ∃ column, field.columnOver rows = some column := by
    obtain ⟨column, -, hcolumn⟩ := exists_of_mapM hcolumns (List.mem_of_getElem? hrows)
    exact ⟨column, hcolumn⟩
  have hk : columns[k]? = some column := by
    rw [getElem?_of_mapM hcolumns k, hrows, Option.bind_some, hcolumn]
  obtain ⟨hsize, hresult⟩ := hv.windowAt?_field hcalls hparts (List.mem_of_getElem? hrows) hcall hf
    hfield hcolumn
  obtain ⟨xs, hxs, hlength, hanswers⟩ := hsteps.exists_answers hs hk
  obtain ⟨⟨hlength', hanswers'⟩, -⟩ := hsteps.overPartition column hnew
  refine ⟨column, xs, hk, hxs, fun i row hrow => ?_⟩
  have hi : i < column.size := by
    rw [hsize]
    exact (List.getElem?_eq_some_iff.1 hrow).1
  have hx := List.getElem?_eq_getElem (hlength ▸ hi)
  have hx' := List.getElem?_eq_getElem (hlength' ▸ hi)
  have hsame := hunique (hanswers i _ hx) (hanswers' i _ hx')
  refine ⟨_, hx, ?_, hanswers i _ hx⟩
  rw [hresult i row hrow, hvalues, hx', Option.getD_some, hsame]

end Fill

/-- Fills over a reachable view. A fill answers every position of all partitions that it goes over
    in turn: filling down the value at the greatest valid position up to there, filling up the one
    at the least valid position from there on, or else its default. So the one is the other over
    the reversed partition. And the results of a call over the view are the answers of such a fill
    with the default of the call, to the values of its field at the rows of each partition. -/
theorem fills_of_reachable {v : View} (hv : Reachable v) {exprs : List (String × ExprSpec)}
    {options : ResolveOptions} {r : Resolution} (hr : v.resolve exprs options = .ok r) :
    (∀ (down : FillDown) fields, List.Forall₂ (StepsBy.Answers (FilledDown down.default)) fields
      (Stepwise.overPartitions down fields).1) ∧
    (∀ (up : FillUp) fields, List.Forall₂ (StepsBy.Answers (FilledUp up.default)) fields
      (Stepwise.overPartitions up fields).1) ∧
    (∀ (up : FillUp) (down : FillDown), up.default = down.default → ∀ field,
      (Stepwise.overPartition up field).1
        = (Stepwise.overPartition down field.reverse).1.reverse) ∧
    ∃ parts, v.partitions true = some parts ∧ ∀ n call, r.windows[n]? = some call →
      (call.operator = .function .fillDown → ∃ field columns, call.fields = [field] ∧
        parts.mapM field.columnOver = some columns ∧
        ∀ down : FillDown, down.default = WindowFunction.param call.params 0 →
          v.FilledBy r.windows n parts columns down (FilledDown down.default)) ∧
      (call.operator = .function .fillUp → ∃ field columns, call.fields = [field] ∧
        parts.mapM field.columnOver = some columns ∧
        ∀ up : FillUp, up.default = WindowFunction.param call.params 0 →
          v.FilledBy r.windows n parts columns up (FilledUp up.default)) := by
  obtain ⟨key, hreach⟩ := hv
  have hsound := sound_of_reachable hreach
  have hcalls : Registered [v.data] r.aggregates r.windows := registered_of_resolve hr
  obtain ⟨parts, hparts, -⟩ := hsound.partitions_spec
  refine ⟨fun down fields => (stepsBy_fillDown down.default).overPartitions fields rfl,
    fun up fields => (stepsBy_fillUp up.default).overPartitions fields rfl,
    fun up down h => overPartition_fillUp h, parts, hparts, fun n call hcall => ⟨fun hf => ?_,
    fun hf => ?_⟩⟩
  · obtain ⟨field, columns, hfield, hcolumns, hfilled⟩ :=
      hsound.fill_spec hcalls hparts hcall hf rfl
        (stepsBy_fillDown (WindowFunction.param call.params 0)) FilledDown.unique
        (.ofDefault _) rfl fun _ _ _ => rfl
    exact ⟨field, columns, hfield, hcolumns, fun down h => h ▸ hfilled down h⟩
  · obtain ⟨field, columns, hfield, hcolumns, hfilled⟩ :=
      hsound.fill_spec hcalls hparts hcall hf rfl
        (stepsBy_fillUp (WindowFunction.param call.params 0)) FilledUp.unique
        (.ofDefault _) rfl fun _ _ _ => rfl
    exact ⟨field, columns, hfield, hcolumns, fun up h => h ▸ hfilled up h⟩

/-- Two groups of two rows, the one with a value in the first row, the other in the second. -/
def gaps : Table :=
  ⟨[("g", .ofValues [.string "a", .string "a", .string "b", .string "b"]),
    ("x", .ofValues [.string "p", .null, .null, .string "q"])], 4⟩

theorem gaps_wellFormed : gaps.WellFormed :=
  Table.wellFormed_ofValues [("g", [.string "a", .string "a", .string "b", .string "b"]),
    ("x", [.string "p", .null, .null, .string "q"])] rfl

def fillExprs : List (String × ExprSpec) :=
  ["fill_down", "fill_up"].map fun name =>
    (name, .tree (.call (.identifier name) [.column 0 "x", .literal (.string "none")]))

/-- What can be told of the cells of a column. -/
def seen (column : Array Value) : List (Option String × Bool) :=
  column.toList.map fun x => (x.string?, x.isValid)

def seenGaps : List (List (Option String × Bool)) :=
  [[(some "p", true), (none, false)], [(none, false), (some "q", true)]]

/-- Neither value reaches the other group. -/
theorem fills_of_reachable_gaps : ∃ v r, Reachable v ∧ v.resolve fillExprs .derive = .ok r ∧
    v.partitions true = some [[0, 1], [2, 3]] ∧
    (∃ columns, columns.map seen = seenGaps ∧
      v.FilledBy r.windows 0 [[0, 1], [2, 3]] columns (FillDown.ofDefault (.string "none"))
        (FilledDown (.string "none"))) ∧
    (∃ columns, columns.map seen = seenGaps ∧
      v.FilledBy r.windows 1 [[0, 1], [2, 3]] columns (FillUp.ofDefault (.string "none"))
        (FilledUp (.string "none"))) ∧
    (List.range 4).map (fun row => (v.windowAt? r.windows 0 row).bind Value.string?)
      = [some "p", some "p", some "none", some "q"] ∧
    (List.range 4).map (fun row => (v.windowAt? r.windows 1 row).bind Value.string?)
      = [some "p", some "none", some "q", some "q"] := by
  obtain ⟨⟨v, r⟩, hrun, hseen⟩ := exists_ok
    (x := do
      let v ← (View.ofTable gaps).groupBy ["g"]
      let r ← v.resolve fillExprs .derive
      return (v, r))
    (p := fun (v, r) => v.partitions true == some [[0, 1], [2, 3]] &&
      r.windows.map (·.operator) == [.function .fillDown, .function .fillUp] &&
      r.windows.all (fun c => (WindowFunction.param c.params 0).string? == some "none") &&
      r.windows.all (fun c => c.fields.all fun f =>
        ([[0, 1], [2, 3]].mapM f.columnOver).map (·.map seen) == some seenGaps) &&
      (List.range 4).map (fun row => (v.windowAt? r.windows 0 row).bind Value.string?)
        == [some "p", some "p", some "none", some "q"] &&
      (List.range 4).map (fun row => (v.windowAt? r.windows 1 row).bind Value.string?)
        == [some "p", some "none", some "q", some "q"])
    (by decide +kernel)
  obtain ⟨v', hv, hrun⟩ := bind_eq_ok hrun
  obtain ⟨r', hr, hrun⟩ := bind_eq_ok hrun
  cases hrun
  simp only [Bool.and_eq_true, beq_iff_eq] at hseen
  obtain ⟨⟨⟨⟨⟨hparts, hoperators⟩, hdefaults⟩, hcolumns⟩, hdown⟩, hup⟩ := hseen
  have hreach : Reachable v :=
    ⟨_, .step (.groupBy ["g"]) [] (.table gaps_wellFormed) (by simp) rfl trivial hv⟩
  obtain ⟨-, -, -, parts, hparts', hfills⟩ := fills_of_reachable hreach hr
  obtain rfl : [[0, 1], [2, 3]] = parts := Option.some.inj (hparts.symm.trans hparts')
  have hcall : ∀ (n : Nat) f, [.function .fillDown, .function .fillUp][n]? = some f →
      ∃ call : WindowCall, r.windows[n]? = some call ∧ call.operator = f ∧
        Value.string "none" = WindowFunction.param call.params 0 ∧
        ∀ field columns, call.fields = [field] →
          [[0, 1], [2, 3]].mapM field.columnOver = some columns → columns.map seen = seenGaps := by
    intro n f hf
    rw [← hoperators, List.getElem?_map] at hf
    obtain ⟨call, hcall, rfl⟩ := Option.map_eq_some_iff.1 hf
    have hmem := List.mem_of_getElem? hcall
    have hdefault := eq_of_beq (List.all_eq_true.1 hdefaults call hmem)
    refine ⟨call, hcall, rfl, ?_, fun field columns hfield hread => ?_⟩
    · cases hparam : WindowFunction.param call.params 0 with
      | string s =>
        rw [hparam] at hdefault
        rw [Option.some.inj hdefault]
      | _ =>
        rw [hparam] at hdefault
        cases hdefault
    · have hall := List.all_eq_true.1 hcolumns call hmem
      rw [hfield, List.all_cons, Bool.and_eq_true] at hall
      have hlook := eq_of_beq hall.1
      rw [hread] at hlook
      exact Option.some.inj hlook
  obtain ⟨first, hfirst, hf, hdefault, hread⟩ := hcall 0 _ rfl
  obtain ⟨second, hsecond, hf', hdefault', hread'⟩ := hcall 1 _ rfl
  obtain ⟨field, columns, hfield, hcolumn, hfilled⟩ := (hfills 0 first hfirst).1 hf
  obtain ⟨field', columns', hfield', hcolumn', hfilled'⟩ := (hfills 1 second hsecond).2 hf'
  exact ⟨v, r, hreach, hr, hparts,
    ⟨columns, hread field columns hfield hcolumn, hfilled (.ofDefault _) hdefault⟩,
    ⟨columns', hread' field' columns' hfield' hcolumn', hfilled' (.ofDefault _) hdefault'⟩,
    hdown, hup⟩

end View

end ColumnQuery
