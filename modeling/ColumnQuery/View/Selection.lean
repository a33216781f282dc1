/-
  Verbs that hide rows: filter, slice, dedupe.

  They set the filter of a view, which narrows its groups, and change nothing else. A predicate
  sees the rows that are visible before it hides some of them.
-/
import ColumnQuery.View.Operators

namespace ColumnQuery

namespace View

/-- The set of the listed rows of the table; none if a row lies outside. -/
def rowSet? (v : View) (rows : List Nat) : Option BitSet := BitSet.ofIndices? v.totalRows rows

/-- Hides all but the listed rows. -/
def keepRows (v : View) (rows : List Nat) : Except QueryError View :=
  QueryError.ofRead ((v.rowSet? rows).map v.withFilter)

/-- The visible rows at which a formula is true. -/
def satisfying (v : View) (f : Formula) (results : OperatorResults) : Option (List Nat) :=
  v.visible.filterMapM fun row => do
    let value ← f.evalRow results.lookup row
    return if value.truthy then some row else none

/-- Keeps the rows at which a predicate is true. -/
def filterBy (v : View) (predicate : ExprSpec) : Except QueryError View := do
  let r ← v.resolve [("filter", predicate)] .derive
  let rows ← QueryError.ofRead do
    let results ← v.operators r v.groupOf
    v.satisfying (← r.exprs.head?).formula results
  v.keepRows rows

/-- A position counted from the start, or from the end if it is negative, among `n`. -/
def boundAt (n : Nat) (i : Int) : Nat := if i < 0 then (n + i).toNat else min i.toNat n

/-- The rows at the positions from `start` up to `stop`. -/
def interval (start : Int) (stop : Option Int) (rows : List Nat) : List Nat :=
  let last := match stop with
    | some i => boundAt rows.length i
    | none => rows.length
  (rows.take last).drop (boundAt rows.length start)

/-- Keeps an interval of positions of every partition. -/
def slice (v : View) (start : Int) (stop : Option Int) : Except QueryError View := do
  let parts ← QueryError.ofRead (v.partitions true)
  v.keepRows (parts.flatMap (interval start stop))

/-- The rows whose key is not the key of an earlier row. -/
def firstByKey : List (List Value) → List (Nat × List Value) → List Nat
  | _, [] => []
  | seen, (row, key) :: rest =>
    if seen.any (Value.sameItems · key) then firstByKey seen rest
    else row :: firstByKey (key :: seen) rest

/-- The named columns, or all columns if none is named. -/
def keyColumns (v : View) (names : List String) : Except QueryError (List Column) :=
  if names.isEmpty then .ok (v.data.columns.map (·.2))
  else names.mapM fun n =>
    match v.data.column? n with
    | some c => .ok c
    | none => .error (.unknownColumn n)

/-- Keeps the first row, in order, of those that agree in the named columns. -/
def dedupe (v : View) (names : List String) : Except QueryError View := do
  let columns ← v.keyColumns names
  let rows ← QueryError.ofRead do
    let rows ← v.sorted
    let keys ← rows.mapM fun row => columns.mapM (·.get? row)
    return firstByKey [] (rows.zip keys)
  v.keepRows rows

end View

end ColumnQuery
