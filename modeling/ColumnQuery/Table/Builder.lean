/-
  Building a table row by row, with an encoding chosen for every column.

  Numeric columns take the number that a valid cell reads as, text columns the text of every
  cell but null; null stays null in both, and an invalid cell is null in a numeric column.
-/
import ColumnQuery.Table.Basic
import ColumnQuery.Value.Text

namespace ColumnQuery

/-- The encoding asked for. -/
inductive ColumnKind where
  | any
  | number
  | text
deriving DecidableEq, Repr

/-- A column of cells in the encoding of a kind. -/
def ColumnKind.encode (kind : ColumnKind) (cells : List Value) : Column :=
  match kind with
  | any => .ofValues cells
  | number => .ofFloatOptions (cells.map fun v => if v.isValid then some v.toFloat else none)
  | text => .ofTextOptions (cells.map fun v => if v.isNull then none else some v.text)

/-- Names and kinds of the columns, and the rows so far. -/
structure TableBuilder where
  schema : List (String × ColumnKind)
  rows : List (List Value)

namespace TableBuilder

def new (schema : List (String × ColumnKind)) : TableBuilder := ⟨schema, []⟩

/-- Adds a row with one cell for every column; none for any other number of cells. -/
def append? (b : TableBuilder) (row : List Value) : Option TableBuilder :=
  if row.length = b.schema.length then some { b with rows := b.rows ++ [row] } else none

/-- The cells at one position of every row. -/
def cellsAt (b : TableBuilder) (i : Nat) : List Value := b.rows.map fun row => row[i]?.getD .null

def finish (b : TableBuilder) : Except TableError Table :=
  (b.schema.zipIdx).foldlM (fun t (e, i) => t.add e.1 (e.2.encode (b.cellsAt i)))
    (Table.withRows b.rows.length)

end TableBuilder

end ColumnQuery
