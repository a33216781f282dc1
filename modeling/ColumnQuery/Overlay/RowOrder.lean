/-
  A sorting order of rows, by keys that are evaluated once for every row.

  Rows are compared key by key. Within a key, rows with an invalid value come after all others,
  whichever the direction, and tie with each other. Sorting is stable: rows that tie keep the
  order in which they stand.
-/
import ColumnQuery.Formula.Rows
import ColumnQuery.Value.Order

namespace ColumnQuery

/-- The value of a key in every row; rows hidden when the key was evaluated hold null. -/
structure SortKey where
  values : Array Value
  descending : Bool
deriving Inhabited

namespace SortKey

/-- Invalid values last in either direction. -/
def compareValues (descending : Bool) (x y : Value) : Ordering :=
  match x.isValid, y.isValid with
  | false, false => .eq
  | false, true => .gt
  | true, false => .lt
  | true, true => if descending then y.order x else x.order y

def valueAt (k : SortKey) (row : Nat) : Value := k.values[row]?.getD .null

def compare (k : SortKey) (a b : Nat) : Ordering :=
  compareValues k.descending (k.valueAt a) (k.valueAt b)

/-- The key for a table whose row `i` was row `rows[i]`; none if a row lies outside. -/
def take? (k : SortKey) (rows : List Nat) : Option SortKey :=
  (rows.mapM (k.values[·]?)).map fun values => ⟨values.toArray, k.descending⟩

end SortKey

/-- An order by several keys, the first one first. -/
structure RowOrder where
  keys : List SortKey
deriving Inhabited

namespace RowOrder

/-- Evaluates the keys at the listed rows among `total` rows. -/
def build? (keys : List (Formula × Bool)) (rows : List Nat) (total : Nat) : Option RowOrder :=
  let key (e : Formula × Bool) : Option SortKey :=
    (e.1.evalRows? Env.noResults rows total).map (⟨·, e.2⟩)
  (keys.mapM key).map (⟨·⟩)

/-- The number of keys. -/
def keyCount (o : RowOrder) : Nat := o.keys.length

/-- Comparison by the first key that tells the rows apart. -/
def compareBy : List SortKey → Nat → Nat → Ordering
  | [], _, _ => .eq
  | k :: ks, a, b => (k.compare a b).then (compareBy ks a b)

def compare (o : RowOrder) (a b : Nat) : Ordering := compareBy o.keys a b

def tied (o : RowOrder) (a b : Nat) : Bool := o.compare a b == .eq

/-- Every key has a value for the row. -/
def covers (o : RowOrder) (row : Nat) : Bool := o.keys.all (row < ·.values.size)

/-- Comparison of rows that the keys cover. -/
def compare? (o : RowOrder) (a b : Nat) : Option Ordering :=
  if o.covers a && o.covers b then some (o.compare a b) else none

/-- The stable sort. -/
def sort (o : RowOrder) (rows : List Nat) : List Nat :=
  rows.mergeSort fun a b => (o.compare a b).isLE

/-- The stable sort; none if rows have to be compared that the keys do not cover. A single row
    is not compared. -/
def sort? (o : RowOrder) (rows : List Nat) : Option (List Nat) :=
  if rows.length ≤ 1 || rows.all o.covers then some (o.sort rows) else none

/-- The order for a table whose row `i` was row `rows[i]`; none if a row lies outside. -/
def take? (o : RowOrder) (rows : List Nat) : Option RowOrder :=
  (o.keys.mapM (SortKey.take? · rows)).map (⟨·⟩)

end RowOrder

end ColumnQuery
