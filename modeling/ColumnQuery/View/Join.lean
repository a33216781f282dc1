/-
  Verbs that match the rows of two views: join, cross, semijoin, antijoin, lookup.

  A join is a fresh view, with a row for every pair of rows that match and, if wanted, for the
  rows that match nothing. The other verbs keep the left view: a semijoin hides its rows without
  a match, an antijoin those with one, and a lookup adds columns from the first match of every
  row.
-/
import ColumnQuery.Join.Columns
import ColumnQuery.View.Columns
import ColumnQuery.View.Selection

namespace ColumnQuery

namespace View

/-! ## Pairs of rows -/

/-- Adds or replaces the column of an expression over pairs of rows. -/
def setPairColumn (rows : List (Option Nat × Option Nat)) (t : Table) (e : NamedFormula) :
    Except QueryError Table := do
  let cells ← QueryError.ofRead
    (rows.mapM fun (l, r) => e.formula.eval (.ofPosition ⟨l, r⟩))
  QueryError.ofTable (t.set e.name (.ofCells cells))

/-- The rows of two views that match, and those that do not if the options keep them. -/
def join (v other : View) (condition : JoinCondition) (columns : JoinColumns)
    (o : JoinOptions) : Except QueryError View := do
  let m ← Matcher.resolveCondition v other condition
  let exprs ← columns.exprs v.data other.data m.shared o
  let r ← Matcher.resolvePair v other exprs
  let found ← QueryError.ofRead (Matches.find? v other m)
  let rows := found.outputRows o.keepLeft o.keepRight
  let t ← r.exprs.foldlM (setPairColumn rows) (.withRows rows.length)
  return v.fresh t

/-- All pairs of rows. -/
def cross (v other : View) (columns : JoinColumns) (o : JoinOptions) : Except QueryError View :=
  v.join other (.predicate (.value (.boolean true))) columns o

/-! ## Rows with and without a match -/

/-- The matches of the visible rows under a condition. -/
def matching (v other : View) (condition : JoinCondition) : Except QueryError Matches := do
  QueryError.ofRead (Matches.find? v other (← Matcher.resolveCondition v other condition))

/-- The set of the rows that match something. -/
def matchedRows (v other : View) (condition : JoinCondition) : Except QueryError BitSet := do
  QueryError.ofRead (v.rowSet? (← v.matching other condition).matchedLeft)

/-- Keeps the rows that match something. -/
def semijoin (v other : View) (condition : JoinCondition) : Except QueryError View := do
  return v.withFilter (← v.matchedRows other condition)

/-- Keeps the rows that match nothing. -/
def antijoin (v other : View) (condition : JoinCondition) : Except QueryError View := do
  let unmatched := (← v.matchedRows other condition).complement
  match v.filter with
  | some f => return v.withFilter (← QueryError.ofRead (unmatched.inter? f))
  | none => return v.withFilter unmatched

/-! ## Looking columns up -/

/-- The first match of every row of the table, where it has one; none if a row that matches
    lies outside. -/
def firstMatchOf? (v : View) (m : Matches) : Option (List (Option Nat)) :=
  (placeCells? (Array.replicate v.totalRows none) (m.firstMatches.map (·.1))
    (m.firstMatches.map fun p => some p.2)).map (·.toList)

/-- The cell of a row of a column; null where there is no row. -/
def cellOf? (c : Column) : Option Nat → Option Value
  | some row => c.get? row
  | none => some .null

/-- Adds or replaces a column by the cells of matching rows. -/
def setLookup (found : List (Option Nat)) (t : Table) (column : String × Column) :
    Except QueryError Table := do
  let cells ← QueryError.ofRead (found.mapM (cellOf? column.2))
  QueryError.ofTable (t.set column.1 (.ofCells cells))

/-- The named columns of a table. -/
def namedColumns (t : Table) (names : List String) :
    Except QueryError (List (String × Column)) :=
  names.mapM fun n =>
    match t.column? n with
    | some c => .ok (n, c)
    | none => .error (.unknownColumn n)

/-- Adds columns of another view, from the first match of every row. -/
def lookup (v other : View) (condition : JoinCondition) (names : List String) :
    Except QueryError View := do
  let columns ← namedColumns other.data names
  let found ← QueryError.ofRead (v.firstMatchOf? (← v.matching other condition))
  return v.withData (← columns.foldlM (setLookup found) v.data)

end View

end ColumnQuery
