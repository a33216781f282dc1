/-
  Expressions over tables in other encodings.

  Two lists of tables hold the same cells, and expressions resolve over both. Then they resolve to
  the same expressions and calls, whose formulas have the same values at all rows of the tables, at
  all pairs of rows and where rows are absent (`Formula.AlikeOver`). A view of the one table and the
  same view of the other are aligned row by row, so the calls have the same results, and the
  expressions that read them have the same values (`resolve_reencoded`).

  This holds although a comparison with a text is made of the cell on one side, and on the other is
  a test of a dictionary, which may hold texts that no row has.
-/
import ColumnQuery.Proofs.Formula.Encodings
import ColumnQuery.Proofs.Mirror.Aligned

namespace ColumnQuery

/-- The same value at all rows of the tables, absent ones included, with the same results. -/
def Formula.AlikeOver (tables : List Table) (f f' : Formula) : Prop :=
  ∀ position, Formula.Within tables position → ∀ results,
    f.eval ⟨position, results⟩ = f'.eval ⟨position, results⟩

/-- A value at all rows of the tables, given results of operators. -/
def Formula.DefinedOver (tables : List Table) (f : Formula) : Prop :=
  ∀ position, Formula.Within tables position → ∀ results, (∀ ref row, (results ref row).isSome) →
    ∃ x, f.eval ⟨position, results⟩ = some x

/-- The same expressions and the same calls, with formulas of the same values. -/
structure Resolution.AlikeOver (tables : List Table) (r r' : Resolution) : Prop where
  exprs : List.Forall₂ (fun e e' => e.name = e'.name ∧ e.formula.AlikeOver tables e'.formula)
    r.exprs r'.exprs
  aggregates : List.Forall₂ (fun c c' => c.aggregate = c'.aggregate ∧ c.params = c'.params ∧
    List.Forall₂ (Formula.AlikeOver tables) c.fields c'.fields) r.aggregates r'.aggregates
  windows : List.Forall₂ (fun c c' => c.operator = c'.operator ∧ c.params = c'.params ∧
    c.frame = c'.frame ∧ List.Forall₂ (Formula.AlikeOver tables) c.fields c'.fields)
    r.windows r'.windows

theorem Formula.alikeOver_of_sameIn {ctx : ResolveContext} {inOperator : Bool} {f f' : Formula}
    (h : f.SameIn (ctx.reencoding.envs inOperator) f') : f.AlikeOver ctx.tables f' :=
  fun _ hwithin _ => h.eval ⟨rfl, hwithin, fun _ => rfl⟩

theorem Resolution.alikeOver_of_same {ctx : ResolveContext} {r r' : Resolution}
    (h : Resolve.SameResolution ctx.reencoding r r') : r.AlikeOver ctx.tables r' where
  exprs := h.exprs.imp fun _ _ he => ⟨he.name, Formula.alikeOver_of_sameIn he.formula⟩
  aggregates := h.aggregates.imp fun _ _ hc => ⟨hc.aggregate, hc.params,
    hc.fields.imp fun _ _ hf => Formula.alikeOver_of_sameIn hf⟩
  windows := h.windows.imp fun _ _ hc => ⟨hc.operator, hc.params, hc.frame,
    hc.fields.imp fun _ _ hf => Formula.alikeOver_of_sameIn hf⟩

/-- The formulas of expressions without escaped functions are defined, and so are all fields. -/
theorem definedOver_of_resolve {ctx : ResolveContext} (htables : ∀ t ∈ ctx.tables, t.WellFormed)
    {exprs : List (String × ExprSpec)} {r : Resolution} (hr : resolve ctx exprs = .ok r) :
    ((∀ e ∈ exprs, e.2.escapes = false) → ∀ e ∈ r.exprs, e.formula.DefinedOver ctx.tables) ∧
      (∀ c ∈ r.aggregates, ∀ f ∈ c.fields, f.DefinedOver ctx.tables) ∧
      ∀ c ∈ r.windows, ∀ f ∈ c.fields, f.DefinedOver ctx.tables := by
  have hplain : ∀ f : Formula, f.Plain ctx.tables → f.DefinedOver ctx.tables := by
    intro f hf position hwithin results _
    have hrows : Formula.Within ctx.tables (Env.mk position results).position := hwithin
    obtain ⟨x, hx⟩ := hf.exists_eval htables hrows
    exact ⟨x, by rw [Formula.eval, hx]; rfl⟩
  have hregistered := registered_of_resolve hr
  refine ⟨fun hescapes e he position hwithin results hresults => ?_,
    fun c hc f hf => hplain f ((hregistered.aggregates_suit c hc).plain f hf),
    fun c hc f hf => hplain f ((hregistered.windows_suit c hc).plain f hf)⟩
  exact (reads_of_resolve hescapes hr e he).exists_eval htables (fun _ => hwithin) hresults

/-- A view of a table and the same view of the table in another encoding give calls the same
    results, and expressions the same values. -/
theorem View.Sound.operators_reencoded {v : View} {key : RowKey} (hv : v.Sound key) {t : Table}
    {ctx ctx' : ResolveContext} (hdata : ctx.tables = [v.data]) (hdata' : ctx'.tables = [t])
    (hrows : v.data.Reencodes t) (ht : t.WellFormed) {exprs exprs' : List (String × ExprSpec)}
    {r r' : Resolution} (hr : ColumnQuery.resolve ctx exprs = .ok r)
    (hr' : ColumnQuery.resolve ctx' exprs' = .ok r')
    (hsame : Resolve.SameResolution ctx.reencoding r r') (group : Nat → Option Nat) :
    ∃ results results',
      v.operators r group = some results ∧ (v.withData t).operators r' group = some results' ∧
      (∀ n row, results.read (.aggregate n) row = results'.read (.aggregate n) row) ∧
      ∀ row ∈ v.visible,
        (∀ n, results.read (.window n) row = results'.read (.window n) row) ∧
        List.Forall₂ (fun e e' => e.formula.evalRow results.lookup row
          = e'.formula.evalRow results'.lookup row) r.exprs r'.exprs := by
  obtain ⟨rows, hsorted, haligned⟩ := hv.aligned_withData hrows.rowCount.symm
  have hvisible : ∀ row, row ∈ rows ↔ row ∈ v.visible :=
    fun row => (View.perm_of_sorted hsorted).mem_iff
  have hwithin : ∀ row ∈ v.visible, Formula.Within ctx.tables (.row row) := by
    intro row hrow
    rw [hdata]
    exact View.within_of_lt (hv.lt_of_visible hrow)
  have hcorrespond : RowsCorrespond ctx.reencoding (rows.map fun row => (row, row)) := by
    intro p hp
    obtain ⟨row, hrow, rfl⟩ := List.mem_map.1 hp
    exact ⟨rfl, hwithin row ((hvisible row).1 hrow), fun _ => rfl⟩
  have hregistered : Registered [v.data] r.aggregates r.windows := hdata ▸ registered_of_resolve hr
  have hregistered' : Registered [(v.withData t).data] r'.aggregates r'.windows := by
    rw [show [(v.withData t).data] = ctx'.tables from hdata'.symm]
    exact registered_of_resolve hr'
  obtain ⟨results, results', hresults, hresults', haggregate, hwindow⟩ :=
    haligned.operators_eq hv (hv.withData ht hrows.rowCount.symm) hcorrespond hregistered
      hregistered' hsame.aggregates hsame.windows group group
  have hread : ∀ row ∈ v.visible, ∀ ref, results.read ref row = results'.read ref row := by
    intro row hrow ref
    cases ref with
    | aggregate n => exact haggregate row row n rfl
    | window n => exact hwindow (row, row) (List.mem_map_of_mem ((hvisible row).2 hrow)) n
  refine ⟨results, results', hresults, hresults', fun n row => haggregate row row n rfl,
    fun row hrow => ⟨fun n => hread row hrow (.window n), ?_⟩⟩
  refine hsame.exprs.imp fun e e' he => he.formula.eval ⟨rfl, hwithin row hrow, fun ref => ?_⟩
  exact congrArg some (hread row hrow ref)

/-- Expressions that resolve over tables with the same cells, encoded in different ways, have the
    same values: at every row, at every pair of rows and at absent rows, in the arguments of
    operators and outside of them, and over every view with the results of its operators. -/
theorem resolve_reencoded {ctx ctx' : ResolveContext} (h : ctx.Reencodes ctx')
    (htables : ∀ t ∈ ctx.tables, t.WellCoded) (htables' : ∀ t ∈ ctx'.tables, t.WellCoded)
    {exprs : List (String × ExprSpec)}
    (hescaped : ∀ e ∈ exprs, ∀ f ∈ e.2.escaped?, f.SeesCells) {r r' : Resolution}
    (hr : resolve ctx exprs = .ok r) (hr' : resolve ctx' exprs = .ok r') :
    r.AlikeOver ctx.tables r' ∧
    ((∀ e ∈ exprs, e.2.escapes = false) → ∀ e ∈ r.exprs, e.formula.DefinedOver ctx.tables) ∧
    (∀ c ∈ r.aggregates, ∀ f ∈ c.fields, f.DefinedOver ctx.tables) ∧
    (∀ c ∈ r.windows, ∀ f ∈ c.fields, f.DefinedOver ctx.tables) ∧
    ∀ (v : View) (t : Table), Reachable v → ctx.tables = [v.data] → ctx'.tables = [t] →
      ∀ group : Nat → Option Nat, ∃ results results',
        v.operators r group = some results ∧ (v.withData t).operators r' group = some results' ∧
        (∀ n row, results.read (.aggregate n) row = results'.read (.aggregate n) row) ∧
        ∀ row ∈ v.visible,
          (∀ n, results.read (.window n) row = results'.read (.window n) row) ∧
          List.Forall₂ (fun e e' => e.formula.evalRow results.lookup row
            = e'.formula.evalRow results'.lookup row) r.exprs r'.exprs := by
  have hsame := h.sameResolution htables htables' hescaped hr hr'
  obtain ⟨hexprs, haggregates, hwindows⟩ :=
    definedOver_of_resolve (fun t ht => (htables t ht).wellFormed) hr
  refine ⟨Resolution.alikeOver_of_same hsame, hexprs, haggregates, hwindows, ?_⟩
  rintro v t ⟨key, hv⟩ hdata hdata' group
  have htable : v.data.Reencodes t := by
    have hforall := h.tables
    rw [hdata, hdata'] at hforall
    exact (List.forall₂_cons.1 hforall).1
  have ht := htables' t (by rw [hdata']; exact List.mem_singleton_self t)
  exact (sound_of_reachable hv).operators_reencoded hdata hdata' htable ht.wellFormed hr hr' hsame
    group

/-- Two letters copied from a dictionary of three, which keeps the third one. -/
def copiedLetters : Table := ⟨[("s", .dictionary #["a", "b", "c"] #[1, 0] none)], 2⟩

theorem copiedLetters_wellCoded : copiedLetters.WellCoded := by
  have hletters : Column.ofTextOptions [some "a", some "b", some "c"]
      = .dictionary #["a", "b", "c"] #[0, 1, 2] none := by
    with_unfolding_all rfl
  have hcolumn : (Column.dictionary #["a", "b", "c"] #[0, 1, 2] none).WellFormed :=
    hletters ▸ Column.wellFormed_ofTextOptions _
  have hthree : Table.WellFormed ⟨[("s", .dictionary #["a", "b", "c"] #[0, 1, 2] none)], 3⟩ :=
    ⟨by decide, by decide, fun e he => List.mem_singleton.1 he ▸ hcolumn⟩
  have hcopy : Table.take? ⟨[("s", .dictionary #["a", "b", "c"] #[0, 1, 2] none)], 3⟩ [1, 0]
      = some copiedLetters := rfl
  refine ⟨hthree.of_take? (by decide) hcopy, List.forall_mem_singleton.2 ?_⟩
  show ["a", "b", "c"].Nodup
  decide

/-- The same letters as plain values. -/
def plainLetters : Table := ⟨[("s", .ofValues [.string "b", .string "a"])], 2⟩

theorem plainLetters_wellCoded : plainLetters.WellCoded where
  wellFormed := Table.wellFormed_ofValues [("s", [.string "b", .string "a"])] rfl
  words := by simp [plainLetters, Column.ofValues, Column.DistinctWords]

theorem copiedLetters_reencodes : copiedLetters.Reencodes plainLetters where
  rowCount := rfl
  columns := by
    refine .cons ⟨rfl, fun row => ?_⟩ .nil
    match row with
    | 0 => rfl
    | 1 => rfl
    | row + 2 =>
      have hle : 2 ≤ row + 2 := Nat.le_add_left 2 row
      exact (Column.get?_eq_none _ _ hle).trans (Column.get?_eq_none _ _ hle).symm

/-- Derivation over one table, without parameters. -/
def ResolveContext.alone (t : Table) : ResolveContext := ⟨[t], [], .derive⟩

theorem copiedLetters_reencodes_alone :
    (ResolveContext.alone copiedLetters).Reencodes (.alone plainLetters) where
  params := rfl
  options := rfl
  tables := .cons copiedLetters_reencodes .nil

/-- Comparisons with a letter that no row has, and with one in the argument of an aggregate. -/
def letterTests : List (String × ExprSpec) :=
  [("absent", .tree (.binary .strictNotEquals (.literal (.string "c")) (.column 0 "s"))),
    ("any", .tree (.call (.identifier "any")
      [.binary .equals (.column 0 "s") (.literal (.string "b"))]))]

theorem exists_resolve_letterTests :
    (∃ r, resolve (.alone copiedLetters) letterTests = .ok r) ∧
      ∃ r, resolve (.alone plainLetters) letterTests = .ok r := by
  have hok : (resolve (.alone copiedLetters) letterTests).isOk = true := by decide +kernel
  have hok' : (resolve (.alone plainLetters) letterTests).isOk = true := by decide +kernel
  constructor
  · cases h : resolve (.alone copiedLetters) letterTests with
    | ok r => exact ⟨r, rfl⟩
    | error e => simp [h, Except.isOk, Except.toBool] at hok
  · cases h : resolve (.alone plainLetters) letterTests with
    | ok r => exact ⟨r, rfl⟩
    | error e => simp [h, Except.isOk, Except.toBool] at hok'

/-- The comparisons have the same values over both tables: as formulas, and with the results of
    the aggregate at both rows. -/
theorem resolve_letterTests : ∃ r r' : Resolution,
    resolve (.alone copiedLetters) letterTests = .ok r ∧
    resolve (.alone plainLetters) letterTests = .ok r' ∧
    r.AlikeOver [copiedLetters] r' ∧
    ∃ results results', (View.ofTable copiedLetters).operators r some = some results ∧
      ((View.ofTable copiedLetters).withData plainLetters).operators r' some = some results' ∧
      ∀ row ∈ [0, 1], List.Forall₂ (fun e e' => e.formula.evalRow results.lookup row
          = e'.formula.evalRow results'.lookup row) r.exprs r'.exprs := by
  obtain ⟨⟨r, hr⟩, r', hr'⟩ := exists_resolve_letterTests
  have hescaped : ∀ e ∈ letterTests, ∀ f ∈ e.2.escaped?, f.SeesCells := by
    intro e he f hf
    obtain rfl | rfl : e = _ ∨ e = _ := by simpa [letterTests] using he
    · cases hf
    · cases hf
  have hreachable : Reachable (View.ofTable copiedLetters) :=
    ⟨_, .table copiedLetters_wellCoded.wellFormed⟩
  obtain ⟨halike, -, -, -, hviews⟩ := resolve_reencoded copiedLetters_reencodes_alone
    (List.forall_mem_singleton.2 copiedLetters_wellCoded)
    (List.forall_mem_singleton.2 plainLetters_wellCoded) hescaped hr hr'
  obtain ⟨results, results', hresults, hresults', -, hrows⟩ :=
    hviews (.ofTable copiedLetters) plainLetters hreachable rfl rfl some
  exact ⟨r, r', hr, hr', halike, results, results', hresults, hresults',
    fun row hrow => (hrows row hrow).2⟩

end ColumnQuery
