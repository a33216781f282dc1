/-
  Verbs that treat views as collections of rows: concat, union, intersect, except.

  The columns are those of the first view. In a union, rows are the same if they agree in every
  cell, invalid cells included; in intersections and differences, rows are matched as by a join,
  so that a row with an invalid cell matches nothing.
-/
import ColumnQuery.View.Join

namespace ColumnQuery

namespace View

/-- The cells of a column in listed rows; nulls if there is no such column. -/
def cellsIn (v : View) (name : String) (rows : List Nat) : Option (List Value) :=
  match v.data.column? name with
  | some c => rows.mapM c.get?
  | none => some (rows.map fun _ => .null)

/-- Adds a column with the cells of several views, one below the other. -/
def addStacked (parts : List (View × List Nat)) (t : Table) (name : String) :
    Except QueryError Table := do
  let cells ← QueryError.ofRead (parts.mapM fun (v, rows) => v.cellsIn name rows)
  QueryError.ofTable (t.add name (.ofCells cells.flatten))

/-- The rows of several views, one below the other, each in its order. -/
def concat (v : View) (others : List View) : Except QueryError View := do
  let parts ← QueryError.ofRead ((v :: others).mapM fun w => w.sorted.map (w, ·))
  let total := (parts.flatMap (·.2)).length
  let t ← v.data.names.foldlM (addStacked parts) (.withRows total)
  return v.fresh t

/-- The rows of several views, each once. -/
def union (v : View) (others : List View) : Except QueryError View := do
  (← v.concat others).dedupe []

/-- Equality in all columns. -/
def rowEquality (v : View) : JoinCondition := .columns v.data.names

/-- The rows, each once, that all other views have. -/
def intersect (v : View) (others : List View) : Except QueryError View := do
  others.foldlM (fun w other => w.semijoin other v.rowEquality) (← v.dedupe [])

/-- The rows, each once, that no other view has. -/
def except (v : View) (others : List View) : Except QueryError View := do
  others.foldlM (fun w other => w.antijoin other v.rowEquality) (← v.dedupe [])

end View

end ColumnQuery
