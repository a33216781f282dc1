/-
  Formulas over the rows of a table.

  `placeCells?` puts items at listed rows of an array with one item for every row; `evalRows?`
  evaluates a formula at listed rows and leaves all other rows null. There is no result exactly
  if a row is listed that the table lacks, or if the formula reads a row outside a column.
-/
import ColumnQuery.Formula.Eval

namespace ColumnQuery

/-- Puts items at rows; none if a row lies outside. -/
def placeCells? (cells : Array α) (rows : List Nat) (values : List α) : Option (Array α) :=
  (rows.zip values).foldlM (fun cells (row, v) =>
    if row < cells.size then some (cells.setIfInBounds row v) else none) cells

namespace Formula

/-- The value at a row of the first table. -/
def evalRow (f : Formula) (results : OpRef → Nat → Option Value) (row : Nat) : Option Value :=
  f.eval ⟨.row row, results⟩

/-- The values at the listed rows among `total` rows, null elsewhere. -/
def evalRows? (f : Formula) (results : OpRef → Nat → Option Value) (rows : List Nat)
    (total : Nat) : Option (Array Value) := do
  let values ← rows.mapM (f.evalRow results)
  placeCells? (Array.replicate total .null) rows values

/-- The values of several formulas at a row, without operators. -/
def evalKey (fs : List Formula) (row : Nat) : Option (List Value) :=
  fs.mapM (·.evalRow Env.noResults row)

end Formula

end ColumnQuery
