/-
  Verbs on the columns of a view: derive, select, rename, relocate.

  They change the table and keep filter, groups, order and parameters. Every expression of a
  `derive` reads the table as it was before, and hidden rows get null. An aggregate in it goes
  over the row's group, a window call over the row's partition.
-/
import ColumnQuery.View.Operators

namespace ColumnQuery

/-- Where columns are moved to: before or after another column, but not both. -/
structure Placement where
  before : Option String
  after : Option String
deriving DecidableEq, Repr

namespace Placement

/-- Columns stay where they are. -/
def none : Placement := ⟨.none, .none⟩

/-- Puts names beside an anchor that is not one of them. -/
def insertBeside (names moved : List String) (anchor : String) (after : Bool) : List String :=
  let rest := names.filter (!moved.contains ·)
  let place := (rest.findIdx? (· == anchor)).getD rest.length + (if after then 1 else 0)
  rest.take place ++ moved ++ rest.drop place

/-- The names with `moved` beside the anchor, in the order given; nothing moves if the anchor
    itself is to be moved. -/
def moveBeside (names moved : List String) (anchor : String) (after : Bool) :
    Except QueryError (List String) :=
  if !names.contains anchor then .error (.unknownColumn anchor)
  else if moved.contains anchor then .ok names
  else .ok (insertBeside names moved anchor after)

/-- The order of columns in which `moved` have been moved. -/
def apply (p : Placement) (names moved : List String) : Except QueryError (List String) :=
  match p.before, p.after with
  | some _, some _ => .error .conflictingPlacement
  | some anchor, .none => moveBeside names moved anchor false
  | .none, some anchor => moveBeside names moved anchor true
  | .none, .none => .ok names

end Placement

namespace View

/-- The columns under their own names, in the order listed. -/
def arrange (t : Table) (names : List String) : Except QueryError Table :=
  QueryError.ofTable (t.project (names.map fun n => (n, n)))

/-! ## Computed columns -/

/-- Adds or replaces the column of an expression. -/
def setColumn (v : View) (results : OperatorResults) (t : Table) (e : NamedFormula) :
    Except QueryError Table := do
  let cells ← QueryError.ofRead (e.formula.evalRows? results.lookup v.visible v.totalRows)
  QueryError.ofTable (t.set e.name (.ofCells cells.toList))

/-- Adds or replaces columns, then moves them. -/
def deriveAt (v : View) (exprs : List (String × ExprSpec)) (placement : Placement) :
    Except QueryError View := do
  let r ← v.resolve exprs .derive
  let results ← QueryError.ofRead (v.operators r v.groupOf)
  let t ← r.exprs.foldlM (v.setColumn results) v.data
  let names ← placement.apply t.names (r.exprs.map (·.name))
  return v.withData (← if names = t.names then pure t else arrange t names)

/-- Adds or replaces columns. -/
def derive (v : View) (exprs : List (String × ExprSpec)) : Except QueryError View :=
  v.deriveAt exprs .none

/-! ## Choosing, naming and moving columns -/

/-- Keeps the named columns, in the order given. -/
def select (v : View) (names : List String) : Except QueryError View := do
  return v.withData (← arrange v.data names)

/-- The first of some names that is no column. -/
def missing? (v : View) (names : List String) : Option String :=
  names.find? fun n => (v.data.column? n).isNone

/-- Refuses names that are no columns. -/
def checkColumns (v : View) (names : List String) : Except QueryError Unit :=
  match v.missing? names with
  | some n => .error (.unknownColumn n)
  | none => .ok ()

/-- Gives columns new names where they stand; of two new names the first one holds. -/
def rename (v : View) (renames : List (String × String)) : Except QueryError View := do
  v.checkColumns (renames.map (·.1))
  let pairs := v.data.names.map fun n => (n, (renames.lookup n).getD n)
  return v.withData (← QueryError.ofTable (v.data.project pairs))

/-- Moves columns. -/
def relocate (v : View) (names : List String) (placement : Placement) :
    Except QueryError View := do
  v.checkColumns names
  return v.withData (← arrange v.data (← placement.apply v.data.names names))

end View

end ColumnQuery
