/-
  Verbs that group and order the rows of a view, and the roll-up of groups.

  Keys are evaluated once, when the verb is applied. Grouping also groups the hidden rows, after
  the visible ones, so that a later filter finds a group for every row; ordering reads visible
  rows only. A roll-up has a row for every group.
-/
import ColumnQuery.View.Operators

namespace ColumnQuery

/-- A sorting key and its direction. -/
structure OrderBy where
  expr : ExprSpec
  descending : Bool

namespace View

/-! ## Groups -/

/-- The rows that the filter hides; none if the filter does not reach that far. -/
def hidden? (v : View) : Option (List Nat) :=
  match v.filter with
  | some f => (List.range v.totalRows).filterMapM fun row => do
      return if ← f.get? row then none else some row
  | none => some []

/-- Groups rows by named keys. -/
def groupByKeys (v : View) (keys : List (String × ExprSpec)) : Except QueryError View := do
  let r ← v.resolve keys .rows
  QueryError.ofRead do
    let rows := v.visible ++ (← v.hidden?)
    let t ← GroupTable.build? (r.exprs.map (·.name)) (r.exprs.map (·.formula)) rows v.totalRows
    let whole := Grouping.ofTable t
    return v.withGroups (match v.filter with
      | some f => whole.narrow f
      | none => whole)

/-- Groups rows by columns. -/
def groupBy (v : View) (names : List String) : Except QueryError View :=
  v.groupByKeys (names.map fun n => (n, .column n))

/-! ## Order -/

/-- Sorts rows by keys, the first one first. -/
def orderBy (v : View) (keys : List OrderBy) : Except QueryError View := do
  let named := keys.zipIdx.map fun (k, i) => (s!"key{i}", k.expr)
  let r ← v.resolve named .rows
  let formulas := (r.exprs.map (·.formula)).zip (keys.map (·.descending))
  QueryError.ofRead ((RowOrder.build? formulas v.visible v.totalRows).map v.withOrder)

/-! ## Roll-up -/

/-- The column of a group key: its value in every group. -/
def keyColumn (groups : GroupTable) (k : Nat) : Column :=
  .ofCells ((List.range groups.size).map fun g =>
    (groups.values[g]?.bind fun key => key[k]?).getD .null)

/-- A table of the keys of all groups. -/
def keyTable (v : View) : Except QueryError Table :=
  match v.groups with
  | some g =>
    g.shown.names.zipIdx.foldlM (fun t (name, k) =>
      QueryError.ofTable (t.add name (keyColumn g.shown k))) (.withRows g.shown.size)
  | none => .ok (.withRows 1)

/-- Adds or replaces the column of an expression over groups. -/
def setGroupColumn (groups : Nat) (results : OperatorResults) (t : Table) (e : NamedFormula) :
    Except QueryError Table := do
  let cells ← QueryError.ofRead
    ((List.range groups).mapM (e.formula.evalRow results.lookup))
  QueryError.ofTable (t.set e.name (.ofCells cells))

/-- One row for every group: its keys, then the values of expressions. -/
def rollup (v : View) (exprs : List (String × ExprSpec)) : Except QueryError View := do
  let r ← v.resolve exprs .rollup
  let results ← QueryError.ofRead (v.operators r some)
  let keys ← v.keyTable
  let t ← r.exprs.foldlM (setGroupColumn v.groupCount results) keys
  return v.fresh t

/-- The number of rows of every group, in a column named `count` unless another name is
    given. -/
def countRows (v : View) (name : Option String) : Except QueryError View :=
  v.rollup [(name.getD "count", .source "count()")]

end View

end ColumnQuery
