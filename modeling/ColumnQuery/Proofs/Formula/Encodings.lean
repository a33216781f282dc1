/-
  Encodings of columns, as expressions see them.

  Expressions are resolved against tables with the same columns by name. Whether they resolve, and
  why not, depends on how the columns are encoded and on what they hold in one place only: where
  something has to be constant, and a dictionary on one side lacks a text that the other side does
  not lack (`resolve_of_sameColumns`). There a comparison with the text is constant on one side.

  Where the cells are the same too (`Reencodes`) and expressions resolve on both sides, they resolve
  to the same calls and to formulas with the same values, at every row of the tables, at every pair
  of rows, and where rows are absent (`Reencodes.sameResolution`).
-/
import ColumnQuery.Proofs.Formula.InStep
import ColumnQuery.Proofs.Table.Alongside

namespace ColumnQuery

namespace ResolveContext

/-- The same columns by name, however they are encoded and whatever they hold. -/
structure SameColumns (ctx ctx' : ResolveContext) : Prop where
  params : ctx.params = ctx'.params
  options : ctx.options = ctx'.options
  names : ctx.tables.map Table.names = ctx'.tables.map Table.names

variable {ctx ctx' : ResolveContext}

theorem SameColumns.length (h : SameColumns ctx ctx') : ctx.tables.length = ctx'.tables.length := by
  simpa using congrArg List.length h.names

theorem SameColumns.names_eq (h : SameColumns ctx ctx') {t : Nat} {table table' : Table}
    (ht : ctx.tables[t]? = some table) (ht' : ctx'.tables[t]? = some table') :
    table.names = table'.names := by
  have hat := congrArg (·[t]?) h.names
  simpa [ht, ht'] using hat

/-- A column is a dictionary that lacks a text. -/
def LacksText (ctx : ResolveContext) (t : Nat) (name s : String) : Prop :=
  ∃ table c, ctx.tables[t]? = some table ∧ table.column? name = some c ∧ c.Lacks s

/-- A dictionary lacks a text, and the column of that name on the other side does not. -/
def LacksBeyond (ctx ctx' : ResolveContext) : Prop :=
  ∃ t name s, ctx.LacksText t name s ∧ ¬ ctx'.LacksText t name s

theorem lacks_or_lacksBeyond {t : Nat} {table table' : Table} {name : String} {c c' : Column}
    (ht : ctx.tables[t]? = some table) (hc : table.column? name = some c)
    (ht' : ctx'.tables[t]? = some table') (hc' : table'.column? name = some c') {s : String}
    (hlacks : c.Lacks s) : c'.Lacks s ∨ ctx.LacksBeyond ctx' := by
  by_cases hother : c'.Lacks s
  · exact .inl hother
  · refine .inr ⟨t, name, s, ⟨table, c, ht, hc, hlacks⟩, ?_⟩
    rintro ⟨u, d, hu, hd, hlacks'⟩
    obtain rfl := Option.some.inj (ht'.symm.trans hu)
    obtain rfl := Option.some.inj (hc'.symm.trans hd)
    exact hother hlacks'

/-- For acceptance, no row needs to correspond. -/
def acceptance (ctx ctx' : ResolveContext) : Comparison where
  envs _ env env' := env = env' ∧ env.position = .none
  leftLacks := ctx.LacksBeyond ctx'
  rightLacks := ctx'.LacksBeyond ctx

theorem SameColumns.counterparts (h : SameColumns ctx ctx') :
    Resolve.Counterparts (ctx.acceptance ctx') ctx ctx' where
  params := h.params
  options := h.options
  tables := h.length
  columns t table table' ht ht' inOperator _ name := by
    refine Table.rel_column? (h.names_eq ht ht') fun c c' hc hc' => ⟨?_, ?_, ?_⟩
    · rintro env _ ⟨rfl, hnone⟩
      have hrow : env.position.rowOf t = none := by
        rw [hnone]
        unfold Position.rowOf Position.none
        split <;> rfl
      rw [hrow]
      exact Column.alike_none c c'
    · exact fun s => lacks_or_lacksBeyond ht hc ht' hc'
    · exact fun s => lacks_or_lacksBeyond ht' hc' ht hc
  absent _ := ⟨rfl, rfl⟩
  results := by
    rintro env _ ⟨rfl, -⟩ ref
    rfl

end ResolveContext

/-- Expressions resolve on both sides or are refused for the same reason on both, unless one side
    demands a constant and the dictionaries of the other side lack a text that its own do not. -/
theorem resolve_of_sameColumns {ctx ctx' : ResolveContext} (h : ctx.SameColumns ctx')
    (exprs : List (String × ExprSpec)) :
    (∃ r r', resolve ctx exprs = .ok r ∧ resolve ctx' exprs = .ok r') ∨
    (∃ e, resolve ctx exprs = .error e ∧ resolve ctx' exprs = .error e) ∨
    (∃ e, resolve ctx exprs = .error e ∧ e.DemandsConstant ∧ ctx'.LacksBeyond ctx) ∨
    ∃ e, resolve ctx' exprs = .error e ∧ e.DemandsConstant ∧ ctx.LacksBeyond ctx' := by
  have houtcome := Resolve.outcome_resolve h.counterparts exprs
  generalize resolve ctx exprs = x, resolve ctx' exprs = y at houtcome
  cases houtcome with
  | ok _ => exact .inl ⟨_, _, rfl, rfl⟩
  | error e => exact .inr (.inl ⟨e, rfl, rfl⟩)
  | left hlacks he => exact .inr (.inr (.inl ⟨_, rfl, he, hlacks⟩))
  | right hlacks he => exact .inr (.inr (.inr ⟨_, rfl, he, hlacks⟩))

/-- Two texts and two numbers, the texts in a dictionary. -/
def ResolveContext.coded : ResolveContext :=
  ⟨[⟨[("s", .dictionary #["a", "b"] #[0, 1] none), ("x", .ofValues [.number 1, .number 2])], 2⟩],
    [], .derive⟩

/-- The same texts and numbers, the texts as plain values. -/
def ResolveContext.uncoded : ResolveContext :=
  ⟨[⟨[("s", .ofValues [.string "a", .string "b"]), ("x", .ofValues [.number 1, .number 2])], 2⟩],
    [], .derive⟩

/-- A quantile whose share is a comparison with a text that is not there. -/
def absentShare : List (String × ExprSpec) :=
  [("q", .tree (.call (.identifier "quantile")
    [.column 0 "x", .binary .equals (.column 0 "s") (.literal (.string "zzz"))]))]

/-- The share is constant over the dictionary, and refused over the same texts as plain values. -/
theorem resolve_absentShare :
    ResolveContext.coded.SameColumns .uncoded ∧
    ResolveContext.coded.tables.map Table.rows = ResolveContext.uncoded.tables.map Table.rows ∧
    (∃ r, resolve .coded absentShare = .ok r) ∧
    ∃ e, resolve .uncoded absentShare = .error e ∧ e.DemandsConstant ∧
      ResolveContext.coded.LacksBeyond .uncoded := by
  have hsame : ResolveContext.coded.SameColumns .uncoded := ⟨rfl, rfl, rfl⟩
  have hok : (resolve .coded absentShare).isOk = true := by decide +kernel
  have hrefused : (resolve .uncoded absentShare).isOk = false := by decide +kernel
  refine ⟨hsame, rfl, ?_⟩
  rcases resolve_of_sameColumns hsame absentShare with ⟨r, r', -, h'⟩ | ⟨e, h, -⟩ | ⟨e, h, -⟩ | h
  · rw [h'] at hrefused
    cases hrefused
  · rw [h] at hok
    cases hok
  · rw [h] at hok
    cases hok
  · refine ⟨?_, h⟩
    cases hr : resolve .coded absentShare with
    | ok r => exact ⟨r, rfl⟩
    | error e =>
      rw [hr] at hok
      cases hok

/-! ## Values -/

/-- The same cells by name and row, however they are encoded. -/
structure Table.Reencodes (t t' : Table) : Prop where
  rowCount : t.rowCount = t'.rowCount
  columns : t.Alongside (fun c c' => ∀ row, c.get? row = c'.get? row) t'

/-- A well-formed table whose dictionaries have no word twice. -/
structure Table.WellCoded (t : Table) : Prop where
  wellFormed : t.WellFormed
  words : ∀ e ∈ t.columns, e.2.DistinctWords

namespace Table

variable {t t' : Table}

/-- Columns can be read at the rows of the table, and where the row is absent. -/
theorem WellCoded.readable (ht : t.WellCoded) {name : String} {c : Column}
    (hc : t.column? name = some c) {row : Option Nat} (hrow : ∀ i ∈ row, i < t.rowCount) :
    c.Readable row := by
  intro i hi
  obtain ⟨hwf, hlength⟩ := ht.wellFormed.column hc
  exact ⟨ht.words _ (mem_of_column? hc), hwf i (by rw [hlength]; exact hrow i hi)⟩

/-- At the rows of the table, and where the row is absent, both encodings are read alike. -/
theorem Reencodes.alike (h : t.Reencodes t') (ht : t.WellCoded) (ht' : t'.WellCoded)
    {name : String} {c c' : Column} (hc : t.column? name = some c) (hc' : t'.column? name = some c')
    {row : Option Nat} (hrow : ∀ i ∈ row, i < t.rowCount) : c.Alike row c' row := by
  refine Column.alike_of_cells (ht.readable hc hrow)
    (ht'.readable hc' fun i hi => h.rowCount ▸ hrow i hi) ?_
  have hcells := h.columns.column? name
  rw [hc, hc'] at hcells
  cases hcells with
  | some hcells =>
    cases row with
    | none => exact .none
    | some i => exact .some (hcells i)

end Table

/-- A function that sees a row only through its cells and its place. -/
def EscapedFunction.SeesCells (f : EscapedFunction) : Prop :=
  ∀ r r' : RowView, r.position = r'.position →
    (∀ table name, r.cell? table name = r'.cell? table name) → ∀ params, f r params = f r' params

namespace ResolveContext

/-- The same cells by table, name and row, under the same parameters and options. -/
structure Reencodes (ctx ctx' : ResolveContext) : Prop where
  params : ctx.params = ctx'.params
  options : ctx.options = ctx'.options
  tables : List.Forall₂ Table.Reencodes ctx.tables ctx'.tables

/-- Both sides stand at the same rows of the tables, and read the same results there. -/
def reencoding (ctx : ResolveContext) : Comparison where
  envs _ env env' := env.position = env'.position ∧ Formula.Within ctx.tables env.position ∧
    ∀ ref, env.results ref (env.position.left.getD 0) = env'.results ref (env'.position.left.getD 0)
  leftLacks := True
  rightLacks := True

variable {ctx ctx' : ResolveContext}

theorem within_none (tables : List Table) : Formula.Within tables .none := by
  intro t table row _ hrow
  unfold Position.rowOf Position.none at hrow
  split at hrow <;> cases hrow

theorem Reencodes.table (h : ctx.Reencodes ctx') {t : Nat} {table table' : Table}
    (ht : ctx.tables[t]? = some table) (ht' : ctx'.tables[t]? = some table') :
    table.Reencodes table' := by
  obtain ⟨hlt, rfl⟩ := List.getElem?_eq_some_iff.1 ht
  obtain ⟨hlt', rfl⟩ := List.getElem?_eq_some_iff.1 ht'
  exact h.tables.get hlt hlt'

theorem Reencodes.counterparts (h : ctx.Reencodes ctx')
    (htables : ∀ t ∈ ctx.tables, t.WellCoded) (htables' : ∀ t ∈ ctx'.tables, t.WellCoded) :
    Resolve.Counterparts ctx.reencoding ctx ctx' where
  params := h.params
  options := h.options
  tables := h.tables.length_eq
  columns t table table' ht ht' inOperator _ name := by
    have htable := h.table ht ht'
    refine Table.rel_column? htable.columns.names fun c c' hc hc' => ?_
    refine ⟨?_, fun _ _ => .inr trivial, fun _ _ => .inr trivial⟩
    rintro env env' ⟨hposition, hwithin, -⟩
    rw [← hposition]
    exact htable.alike (htables _ (List.mem_of_getElem? ht))
      (htables' _ (List.mem_of_getElem? ht')) hc hc' fun i hi => hwithin t table i ht hi
  absent _ := ⟨rfl, within_none ctx.tables, fun _ => rfl⟩
  results _ _ henvs := henvs.2.2

/-- A function that sees cells sees the same on both sides. -/
theorem Reencodes.seesSame (h : ctx.Reencodes ctx') {f : EscapedFunction} (hf : f.SeesCells) :
    Resolve.SeesSame ctx.reencoding ctx ctx' f := by
  rintro env env' ⟨hposition, -⟩
  rw [h.params, ← hposition]
  refine hf ⟨ctx.tables, env.position⟩ ⟨ctx'.tables, env.position⟩ rfl (fun t name => ?_) _
  unfold RowView.cell?
  dsimp only
  cases ht : ctx.tables[t]? with
  | none =>
    have hle := h.tables.length_eq ▸ List.getElem?_eq_none_iff.1 ht
    rw [List.getElem?_eq_none hle]
  | some table =>
    have hlt := h.tables.length_eq ▸ (List.getElem?_eq_some_iff.1 ht).1
    have ht' := List.getElem?_eq_getElem hlt
    rw [ht']
    cases env.position.rowOf t with
    | none => rfl
    | some row =>
      have hcolumn := (h.table ht ht').columns.column? name
      dsimp only
      generalize table.column? name = x, ctx'.tables[t].column? name = y at hcolumn
      cases hcolumn with
      | none => rfl
      | some hcells => exact hcells row

/-- What resolves on both sides resolves to the same calls, and to formulas with the same values. -/
theorem Reencodes.sameResolution (h : ctx.Reencodes ctx')
    (htables : ∀ t ∈ ctx.tables, t.WellCoded) (htables' : ∀ t ∈ ctx'.tables, t.WellCoded)
    {exprs : List (String × ExprSpec)}
    (hescaped : ∀ e ∈ exprs, ∀ f ∈ e.2.escaped?, f.SeesCells) {r r' : Resolution}
    (hr : resolve ctx exprs = .ok r) (hr' : resolve ctx' exprs = .ok r') :
    Resolve.SameResolution ctx.reencoding r r' := by
  have houtcome := Resolve.outcome_resolve (h.counterparts htables htables') exprs
  rw [hr, hr'] at houtcome
  cases houtcome with
  | ok hsame => exact hsame fun e he f hf => h.seesSame (hescaped e he f hf)

end ResolveContext

end ColumnQuery
