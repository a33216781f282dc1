/-
  Columns derived together.

  Expressions that resolve alone resolve together, and every column reads the table as it was. What
  is shared is the results of operators: a call that is the same as one of another expression is
  not computed again, and aggregates whose fields have the same trees are computed from the fields
  of the first of them. So a column of many is the formula of its expression over the results of
  the calls in the common lists, each of them by itself over the fields of its leader
  (`derive_together`). It is the column that the expression has alone if these calls are those of
  the expression, and so it is if the calls are told apart by what they are compared by.

  They need not be. Calls count as the same if the trees of their fields are, and as to their
  parameters zeros of both signs are. Fields that are looked up among the numeric constants keep a
  tree that does not tell which constant is meant; then the one call has the results of the other.
-/
import ColumnQuery.Proofs.Formula.WellFormed
import ColumnQuery.Proofs.View.Among
import ColumnQuery.Proofs.View.Rolling

namespace ColumnQuery

/-! ## Formulas and the calls that they refer to -/

/-- A result of an operator that can be read is that of a call. -/
theorem Resolution.exists_call? {ctx : ResolveContext} {r : Resolution} {ref : OpRef}
    (h : Formula.Readable ctx r.aggregates.length r.windows.length (.op ref)) :
    ∃ c, r.call? ref = some c := by
  cases ref with
  | aggregate n =>
    have hn : n < r.aggregates.length := h
    exact ⟨_, congrArg (Option.map OperatorCall.aggregate) (List.getElem?_eq_getElem hn)⟩
  | window n =>
    have hn : n < r.windows.length := h
    exact ⟨_, congrArg (Option.map OperatorCall.window) (List.getElem?_eq_getElem hn)⟩

/-- A resolved formula has the same value where the calls that it refers to have the same
    results. -/
theorem evalRow_congr {ctx : ResolveContext} {r : Resolution} {f : Formula}
    (h : f.Leaves (Formula.Readable ctx r.aggregates.length r.windows.length))
    {results results' : OpRef → Nat → Option Value} {row : Nat}
    (hresults : ∀ ref c, r.call? ref = some c → results ref row = results' ref row) :
    f.evalRow results row = f.evalRow results' row := by
  unfold Formula.evalRow Formula.eval
  rw [Formula.evalWith_congr f (Formula.Leaves.imp (fun leaf hleaf s => ?_) f h)]
  cases leaf with
  | op ref =>
    obtain ⟨c, hc⟩ := Resolution.exists_call? hleaf
    rw [Formula.evalWith, Formula.evalWith]
    exact congrArg (Option.map (·, s)) (hresults ref c hc)
  | column _ _ | dictionaryEq _ _ _ _ | slot _ | escape _ _ _ =>
    rw [Formula.evalWith, Formula.evalWith]
  | _ => cases hleaf

/-- The formula of an expression is an escaped function, or reads what the options allow. -/
theorem escape_or_reads {ctx : ResolveContext} {e : String × ExprSpec} {r : Resolution}
    {f : Formula} {tree : Option Node} (h : resolve ctx [e] = .ok r)
    (hexprs : r.exprs = [⟨e.1, f, tree⟩]) :
    (∃ g, f = .escape g ctx.tables ctx.params) ∨ Resolve.Reads ctx false f := by
  obtain ⟨es, s, hnamed, rfl⟩ := resolve_eq_ok_iff.1 h
  obtain ⟨b, hb, rfl⟩ := Resolve.named_singleton.1 hnamed
  cases hexprs
  exact (Resolve.escape_or_reads_of_spec hb).imp (fun ⟨g, _, hg⟩ => ⟨g, hg⟩) (·.2)

namespace View

variable {v : View} {key : RowKey} {exprs : List (String × ExprSpec)} {r : Resolution}
  {results : OperatorResults}

/-! ## Derived columns -/

/-- The column of a formula, given the results of the calls that it refers to. -/
def columnOf (v : View) (f : Formula) (results : OpRef → Nat → Option Value) : Option Column :=
  (f.evalRows? results v.visible v.totalRows).map fun cells => .ofCells cells.toList

theorem columnOf_congr {f f' : Formula} {results results' : OpRef → Nat → Option Value}
    (h : ∀ row ∈ v.visible, f.evalRow results row = f'.evalRow results' row) :
    v.columnOf f results = v.columnOf f' results' := by
  unfold columnOf Formula.evalRows?
  rw [mapM_congr h]

theorem Sound.exists_columnOf (hv : v.Sound key) {f : Formula}
    {results : OpRef → Nat → Option Value}
    (hvalue : ∀ row ∈ v.visible, ∃ x, f.evalRow results row = some x) :
    ∃ c, v.columnOf f results = some c := by
  obtain ⟨cells, hcells, -⟩ := Formula.evalRows?_spec hv.nodup_visible
    (fun row hrow => hv.lt_of_visible hrow) hvalue
  refine ⟨.ofCells cells.toList, ?_⟩
  unfold columnOf
  rw [hcells]
  rfl

theorem columnOf_mapOps (f : Formula) (place : OpRef → OpRef)
    (results : OpRef → Nat → Option Value) :
    v.columnOf (f.mapOps place) results = v.columnOf f fun ref => results (place ref) :=
  columnOf_congr fun row _ => Formula.evalRow_mapOps f row

theorem exists_of_derive (hr : v.resolve exprs .derive = .ok r)
    (hresults : v.operators r v.groupOf = some results) {w : View} (h : v.derive exprs = .ok w) :
    ∃ t, r.exprs.foldlM (v.setColumn results) v.data = .ok t ∧ w = v.withData t := by
  have hsteps := h
  unfold derive deriveAt at hsteps
  obtain ⟨own, hown, hsteps⟩ := bind_eq_ok hsteps
  obtain rfl : r = own := Except.ok.inj (hr.symm.trans hown)
  obtain ⟨found, hfound, hsteps⟩ := bind_eq_ok hsteps
  obtain rfl : results = found :=
    Option.some.inj (hresults.symm.trans (QueryError.ofRead_eq_ok hfound))
  obtain ⟨t, ht, -⟩ := bind_eq_ok hsteps
  exact ⟨t, ht, Except.ok.inj (h.symm.trans (derive_eq_ok hr hresults ht))⟩

/-- Columns are derived exactly if all expressions have cells, and these are their cells. -/
theorem derive_columns (hr : v.resolve exprs .derive = .ok r)
    (hresults : v.operators r v.groupOf = some results) (hnames : (r.exprs.map (·.name)).Nodup) :
    ((∃ w, v.derive exprs = .ok w) ↔
      ∀ e ∈ r.exprs, ∃ c, v.columnOf e.formula results.lookup = some c) ∧
    ∀ w, v.derive exprs = .ok w → ∀ e ∈ r.exprs,
      w.data.column? e.name = v.columnOf e.formula results.lookup := by
  have hcells : ∀ {t : Table}, r.exprs.foldlM (v.setColumn results) v.data = .ok t →
      ∀ e ∈ r.exprs, ∃ cells, e.formula.evalRows? results.lookup v.visible v.totalRows
        = some cells := by
    intro t ht e he
    rw [setColumn_eq] at ht
    obtain ⟨values, hvalues⟩ := cells_of_foldlM_setCells ht e he
    obtain ⟨cells, hcells, -⟩ := Option.map_eq_some_iff.1 hvalues
    exact ⟨cells, hcells⟩
  have hcolumns : (∀ e ∈ r.exprs, ∃ cells,
      e.formula.evalRows? results.lookup v.visible v.totalRows = some cells) →
      ∃ t, r.exprs.foldlM (v.setColumn results) v.data = .ok t ∧
        ∀ e ∈ r.exprs, t.column? e.name = v.columnOf e.formula results.lookup := by
    intro hall
    have hsized : ∀ e ∈ r.exprs, ∃ values : List Value,
        (e.formula.evalRows? results.lookup v.visible v.totalRows).map (·.toList) = some values ∧
          values.length = v.data.rowCount := by
      intro e he
      obtain ⟨cells, hcells⟩ := hall e he
      exact ⟨cells.toList, congrArg (Option.map (·.toList)) hcells,
        Formula.size_of_evalRows? hcells⟩
    obtain ⟨t, ht, -, hspec⟩ := foldlM_setCells_columns r.exprs v.data hsized
    refine ⟨t, by rw [setColumn_eq]; exact ht, fun e he => ?_⟩
    rw [hspec, lastNamed?_of_nodup hnames he]
    exact Option.map_map ..
  refine ⟨⟨fun ⟨w, hw⟩ e he => ?_, fun hall => ?_⟩, fun w hw => ?_⟩
  · obtain ⟨t, ht, -⟩ := exists_of_derive hr hresults hw
    obtain ⟨cells, hcells⟩ := hcells ht e he
    exact ⟨.ofCells cells.toList, by rw [columnOf, hcells]; rfl⟩
  · obtain ⟨t, ht, -⟩ := hcolumns fun e he => by
      obtain ⟨c, hc⟩ := hall e he
      obtain ⟨cells, hcells, -⟩ := Option.map_eq_some_iff.1 hc
      exact ⟨cells, hcells⟩
    exact ⟨_, derive_eq_ok hr hresults ht⟩
  · obtain ⟨t, ht, rfl⟩ := exists_of_derive hr hresults hw
    obtain ⟨t', ht', hspec⟩ := hcolumns (hcells ht)
    obtain rfl : t = t' := Except.ok.inj (ht.symm.trans ht')
    exact hspec

/-! ## Derived together -/

/-- The results of the calls of a resolution, each of them by itself over the fields that it is
    computed from. -/
def resultsOf (v : View) (r : Resolution) (ref : OpRef) (row : Nat) : Option Value :=
  (r.call? ref).bind fun c => v.alone (c.among r) row

theorem Sound.resultsOf_eq (hv : v.Sound key) (h : Registered [v.data] r.aggregates r.windows)
    (hresults : v.operators r v.groupOf = some results) {ref : OpRef} {c : OperatorCall}
    (hc : r.call? ref = some c) {row : Nat} (hrow : row ∈ v.visible) :
    v.resultsOf r ref row = results.lookup ref row := by
  unfold resultsOf
  rw [hc]
  exact hv.read_among h hresults hc hrow

section Alone

variable {e : String × ExprSpec} {own : Resolution} {f : Formula} {tree : Option Node}

/-- The column of an expression depends on the results of its own calls only. -/
theorem columnOf_congr_calls (hown : v.resolve [e] .derive = .ok own)
    (hexprs : own.exprs = [⟨e.1, f, tree⟩]) {results results' : OpRef → Nat → Option Value}
    (h : ∀ ref c, own.call? ref = some c → ∀ row ∈ v.visible, results ref row = results' ref row) :
    v.columnOf f results = v.columnOf f results' := by
  have hleaves := (wellFormed_of_resolve hown).leaves ⟨e.1, f, tree⟩
    (hexprs ▸ List.mem_singleton_self _)
  exact columnOf_congr fun row hrow => evalRow_congr hleaves fun ref c hc => h ref c hc row hrow

/-- The column of an expression over the results of calls that are the same as its own. -/
theorem Sound.columnOf_shared (hv : v.Sound key) (hown : v.resolve [e] .derive = .ok own)
    (hexprs : own.exprs = [⟨e.1, f, tree⟩]) (h : Registered [v.data] r.aggregates r.windows)
    (hresults : v.operators r v.groupOf = some results) {place : OpRef → OpRef}
    (hshared : own.SharedIn r place) :
    v.columnOf f (fun ref => results.lookup (place ref))
      = v.columnOf f fun ref => v.resultsOf r (place ref) := by
  refine columnOf_congr_calls hown hexprs fun ref c hc row hrow => ?_
  obtain ⟨d, hd, -⟩ := hshared ref c hc
  exact (hv.resultsOf_eq h hresults hd hrow).symm

/-- A formula has cells over all results or over none. -/
theorem Sound.exists_columnOf_iff (hv : v.Sound key) (hown : v.resolve [e] .derive = .ok own)
    (hexprs : own.exprs = [⟨e.1, f, tree⟩]) {results results' : OpRef → Nat → Option Value}
    (htotal : ∀ ref row, (results ref row).isSome)
    (htotal' : ∀ ref row, (results' ref row).isSome) :
    (∃ c, v.columnOf f results = some c) ↔ ∃ c, v.columnOf f results' = some c := by
  rcases escape_or_reads hown hexprs with ⟨g, rfl⟩ | hreads
  · have hsame : v.columnOf (.escape g [v.data] v.params) results
        = v.columnOf (.escape g [v.data] v.params) results' := columnOf_congr fun _ _ => rfl
    rw [hsame]
  · have hexists : ∀ {results : OpRef → Nat → Option Value},
        (∀ ref row, (results ref row).isSome) → ∃ c, v.columnOf f results = some c := by
      intro results htotal
      refine hv.exists_columnOf fun row hrow => ?_
      exact hreads.exists_eval (List.forall_mem_singleton.2 hv.table)
        (fun _ => within_of_lt (hv.lt_of_visible hrow)) htotal
    exact ⟨fun _ => hexists htotal', fun _ => hexists htotal⟩

/-- An expression that is derived alone has the column of its formula over the results of its own
    calls. -/
theorem Sound.column_alone (hv : v.Sound key) (hown : v.resolve [e] .derive = .ok own)
    (hexprs : own.exprs = [⟨e.1, f, tree⟩]) :
    ∃ results, v.operators own v.groupOf = some results ∧
      ((∃ w, v.derive [e] = .ok w) ↔ ∃ c, v.columnOf f results.lookup = some c) ∧
      ∀ w, v.derive [e] = .ok w → w.data.column? e.1 = v.columnOf f (v.resultsOf own) := by
  have hcalls : Registered [v.data] own.aggregates own.windows := registered_of_resolve hown
  obtain ⟨results, hresults⟩ := hv.exists_operators hcalls
  have hnames : (own.exprs.map (·.name)).Nodup := by
    rw [hexprs]
    simp
  obtain ⟨hexists, hcolumn⟩ := derive_columns hown hresults hnames
  have hsame := hv.columnOf_shared hown hexprs hcalls hresults own.sharedIn_refl
  rw [hexprs] at hexists hcolumn
  refine ⟨results, hresults, hexists.trans List.forall_mem_singleton, fun w hw => ?_⟩
  exact (hcolumn w hw _ (List.mem_singleton_self _)).trans hsame

end Alone

/-- Over alike calls a formula has the same column. -/
theorem Sound.columnOf_alike (hv : v.Sound key) {e : String × ExprSpec} {own : Resolution}
    {f : NamedFormula} {formula : Formula} {place : OpRef → OpRef}
    (htogether : Together ⟨[v.data], v.params, .derive⟩ r e f own formula place)
    (hr : v.resolve exprs .derive = .ok r)
    (halike : ∀ ref c d, own.call? ref = some c → r.call? (place ref) = some d →
      (c.among own).Alike (d.among r)) :
    v.columnOf formula (fun ref => v.resultsOf r (place ref))
      = v.columnOf formula (v.resultsOf own) := by
  have hcalls : Registered [v.data] r.aggregates r.windows := registered_of_resolve hr
  have hown : Registered [v.data] own.aggregates own.windows :=
    registered_of_resolve htogether.alone
  refine columnOf_congr_calls htogether.alone htogether.exprs fun ref c hc row hrow => ?_
  obtain ⟨d, hd, -⟩ := htogether.shared ref c hc
  have hsame := hv.alone_alike (OperatorCall.suits_among hown hc)
    (OperatorCall.suits_among hcalls hd) (halike ref c d hc hd) hrow
  unfold resultsOf
  rw [hc, hd]
  exact hsame.symm

/-- A column that is derived together with others. Alone, it is the column of its formula over the
    results of its own calls, and together over the results of the calls in the common lists that
    are the same. So it is the same column if these are computed from the same fields and have the
    same parameters, as they are and have if the calls are told apart by what they are compared
    by. -/
structure DerivedAlike (v : View) (exprs : List (String × ExprSpec)) (r : Resolution)
    (e : String × ExprSpec) (own : Resolution) (f : Formula) (place : OpRef → OpRef) : Prop where
  alone : ∀ w, v.derive [e] = .ok w → w.data.column? e.1 = v.columnOf f (v.resultsOf own)
  together : ∀ w, v.derive exprs = .ok w →
    w.data.column? e.1 = v.columnOf f fun ref => v.resultsOf r (place ref)
  same_of_alike : (∀ ref c d, own.call? ref = some c → r.call? (place ref) = some d →
      (c.among own).Alike (d.among r)) →
    ∀ w w', v.derive [e] = .ok w → v.derive exprs = .ok w' →
      w'.data.column? e.1 = w.data.column? e.1
  same_of_apart : OperatorCall.ToldApart (own.calls ++ r.calls) →
    ∀ w w', v.derive [e] = .ok w → v.derive exprs = .ok w' →
      w'.data.column? e.1 = w.data.column? e.1

/-- Expressions that resolve alone resolve together, and they can be derived together exactly if
    each of them can be derived alone. -/
theorem derive_together (hv : Reachable v) (hnames : (exprs.map (·.1)).Nodup)
    (halone : ∀ e ∈ exprs, ∃ r, v.resolve [e] .derive = .ok r) :
    ∃ r, v.resolve exprs .derive = .ok r ∧
      ((∃ w, v.derive exprs = .ok w) ↔ ∀ e ∈ exprs, ∃ w, v.derive [e] = .ok w) ∧
      ∀ e ∈ exprs, ∃ f own formula place,
        Together ⟨[v.data], v.params, .derive⟩ r e f own formula place ∧
        DerivedAlike v exprs r e own formula place := by
  obtain ⟨key, hreach⟩ := hv
  have hsound := sound_of_reachable hreach
  obtain ⟨r, hr, hall⟩ := resolve_together halone
  have hr : v.resolve exprs .derive = .ok r := hr
  have hcalls : Registered [v.data] r.aggregates r.windows := registered_of_resolve hr
  obtain ⟨results, hresults⟩ := hsound.exists_operators hcalls
  have hdistinct : (r.exprs.map (·.name)).Nodup := by
    rw [names_of_resolve hr]
    exact hnames
  obtain ⟨hexists, hcolumn⟩ := derive_columns hr hresults hdistinct
  -- one of the columns can be had from the common results exactly if it can be derived alone
  have hone : ∀ e f, (∃ own formula place,
      Together ⟨[v.data], v.params, .derive⟩ r e f own formula place) →
      ((∃ c, v.columnOf f.formula results.lookup = some c) ↔ ∃ w, v.derive [e] = .ok w) := by
    rintro e f ⟨own, formula, place, htogether⟩
    obtain ⟨alone, -, hderive, -⟩ := hsound.column_alone htogether.alone htogether.exprs
    rw [hderive, htogether.moved, columnOf_mapOps]
    exact hsound.exists_columnOf_iff htogether.alone htogether.exprs (fun _ _ => rfl)
      fun _ _ => rfl
  refine ⟨r, hr, hexists.trans ⟨fun h e he => ?_, fun h f hf => ?_⟩, fun e he => ?_⟩
  · obtain ⟨f, hf, htogether⟩ := exists_of_forall₂ hall he
    exact (hone e f htogether).1 (h f hf)
  · obtain ⟨e, he, htogether⟩ := exists_of_forall₂ hall.flip hf
    exact (hone e f htogether).2 (h e he)
  · obtain ⟨f, hf, own, formula, place, htogether⟩ := exists_of_forall₂ hall he
    obtain ⟨-, -, -, hown⟩ := hsound.column_alone htogether.alone htogether.exprs
    have hcommon : ∀ w, v.derive exprs = .ok w → w.data.column? e.1
        = v.columnOf formula fun ref => v.resultsOf r (place ref) := by
      intro w hw
      have hjoint := hcolumn w hw f hf
      rw [htogether.moved, columnOf_mapOps] at hjoint
      exact hjoint.trans (hsound.columnOf_shared htogether.alone htogether.exprs hcalls hresults
        htogether.shared)
    have halike : (∀ ref c d, own.call? ref = some c → r.call? (place ref) = some d →
        (c.among own).Alike (d.among r)) → ∀ w w', v.derive [e] = .ok w →
          v.derive exprs = .ok w' → w'.data.column? e.1 = w.data.column? e.1 := by
      intro halike w w' hw hw'
      rw [hcommon w' hw', hown w hw]
      exact hsound.columnOf_alike htogether hr halike
    refine ⟨f, own, formula, place, htogether, hown, hcommon, halike, fun hapart => ?_⟩
    exact halike (htogether.alike (callsTold_of_resolve hr) hapart)

/-- The least value of the numeric constant `Math[q.k]`. -/
def leastConstant (q : Pattern) : ExprSpec :=
  .tree (.arrow [.name "d", q] (.call (.identifier "min")
    [.member (.identifier "Math") (.member (.identifier "q") (.identifier "k") false) true]))

/-- The constant that is named in the parameter `q`. -/
def byParameter : String × ExprSpec := ("b", leastConstant (.object [("q", "q")]))

/-- Here the first `q` is all parameters. -/
def leastConstants : List (String × ExprSpec) := [("a", leastConstant (.name "q")), byParameter]

/-- Whether the first row of a column holds a numeric constant. -/
def showsConstant (w : View) (name constant : String) : Bool :=
  (w.data.column? name).any fun c => (c.get? 0).any fun x => (Constants.math? constant).any x.same

/-- Together with the first one, the second one is shown the constant of the first one. -/
theorem derive_constants : ∃ r w w', ∃ own formula, ∃ place : OpRef → OpRef,
    constants.resolve leastConstants .derive = .ok r ∧
    constants.derive [byParameter] = .ok w ∧ constants.derive leastConstants = .ok w' ∧
    w.data.column? "b" = constants.columnOf formula (constants.resultsOf own) ∧
    w'.data.column? "b" = constants.columnOf formula (fun ref => constants.resultsOf r (place ref)) ∧
    showsConstant w "b" "E" = true ∧ showsConstant w' "b" "PI" = true ∧
    w'.data.column? "b" ≠ w.data.column? "b" := by
  obtain ⟨w, hw, halone⟩ := exists_ok (x := constants.derive [byParameter])
    (p := fun w => showsConstant w "b" "E") (by decide +kernel)
  obtain ⟨w', hw', hshows⟩ := exists_ok (x := constants.derive leastConstants)
    (p := fun w => showsConstant w "b" "PI" && !showsConstant w "b" "E") (by decide +kernel)
  obtain ⟨hpi, he⟩ := Bool.and_eq_true_iff.1 hshows
  have hresolves : ∀ e ∈ leastConstants,
      (constants.resolve [e] .derive).toOption.any (fun _ => true) = true := by decide +kernel
  obtain ⟨r, hr, -, hall⟩ := derive_together reachable_constants (by decide) fun e he =>
    (exists_ok (hresolves e he)).imp fun _ h => h.1
  obtain ⟨f, own, formula, place, -, hderived⟩ := hall byParameter (by simp [leastConstants])
  refine ⟨r, w, w', own, formula, place, hr, hw, hw', hderived.alone w hw,
    hderived.together w' hw', halone, hpi,
    fun hsame => ?_⟩
  unfold showsConstant at halone he
  rw [hsame, halone] at he
  cases he

end View

end ColumnQuery
