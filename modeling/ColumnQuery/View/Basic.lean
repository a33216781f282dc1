/-
  Views: a table under a filter, a grouping and a sorting order, with parameters.

  A view never changes its table; it says which rows are visible, in which groups they are and
  in which order they are read. `visible` lists the visible rows as they stand in the table,
  `sorted` lists them in order, and `partitions` splits either list by group.

  A view is made from another one by `create`. A new filter (or none) over inherited groups
  narrows the groups, so that every visible row has a group and no group is empty. `reify`
  copies the visible rows into a table of their own.

  Overlays that do not fit the table, which only `create` can bring together, show when a row
  is read: there is then no result (`QueryError.outOfBounds`).
-/
import ColumnQuery.Formula.Resolve
import ColumnQuery.Overlay.Grouping
import ColumnQuery.Overlay.RowOrder

namespace ColumnQuery

structure View where
  data : Table
  filter : Option BitSet
  groups : Option Grouping
  order : Option RowOrder
  params : Params
deriving Inhabited

/-- What becomes of an overlay. -/
inductive Change (α : Type) where
  | keep
  | clear
  | replace (overlay : α)

namespace Change

def apply : Change α → Option α → Option α
  | keep, old => old
  | clear, _ => none
  | replace overlay, _ => some overlay

def isKeep : Change α → Bool
  | keep => true
  | _ => false

end Change

/-- What a new view changes; the rest is inherited. -/
structure ViewChanges where
  data : Option Table := none
  filter : Change BitSet := .keep
  groups : Change Grouping := .keep
  order : Change RowOrder := .keep
  params : Option Params := none

namespace View

def ofTable (t : Table) : View := ⟨t, none, none, none, []⟩

/-- The rows of the table. -/
def totalRows (v : View) : Nat := v.data.rowCount

/-- The number of visible rows. -/
def rowCount (v : View) : Nat :=
  match v.filter with
  | some f => f.size
  | none => v.totalRows

/-! ## New views -/

/-- The view with changes. A filter that is replaced or cleared narrows inherited groups. -/
def create (v : View) (c : ViewChanges) : View :=
  let data := c.data.getD v.data
  let filter := c.filter.apply v.filter
  let inherited :=
    if c.filter.isKeep then v.groups
    else v.groups.map (·.narrow (filter.getD (.full data.rowCount)))
  ⟨data, filter, c.groups.apply inherited, c.order.apply v.order, c.params.getD v.params⟩

def withData (v : View) (t : Table) : View := v.create { data := some t }

def withFilter (v : View) (f : BitSet) : View := v.create { filter := .replace f }

def withoutFilter (v : View) : View := v.create { filter := .clear }

def withGroups (v : View) (g : Grouping) : View := v.create { groups := .replace g }

def withOrder (v : View) (o : RowOrder) : View := v.create { order := .replace o }

/-- Drops the grouping. -/
def ungroup (v : View) : View := v.create { groups := .clear }

/-- Drops the order. -/
def unorder (v : View) : View := v.create { order := .clear }

/-- Adds parameters; later values win. -/
def addParams (v : View) (values : List (String × Value)) : View :=
  v.create { params := some (values.foldl (fun p e => p.insert e.1 e.2) v.params) }

/-- A fresh view of another table under the same parameters. -/
def fresh (v : View) (t : Table) : View := (ofTable t).create { params := some v.params }

/-! ## Rows -/

/-- The visible rows as they stand in the table. -/
def visible (v : View) : List Nat :=
  match v.filter with
  | some f => f.toList
  | none => List.range v.totalRows

/-- The visible rows in order. -/
def sorted (v : View) : Option (List Nat) :=
  match v.order with
  | some o => o.sort? v.visible
  | none => some v.visible

def indices (v : View) (ordered : Bool) : Option (List Nat) :=
  if ordered then v.sorted else some v.visible

/-- The group of a row; the rows of an ungrouped view are all in one group. -/
def groupOf (v : View) (row : Nat) : Option Nat :=
  match v.groups with
  | some g => g.shown.groupOf row
  | none => some 0

def groupCount (v : View) : Nat :=
  match v.groups with
  | some g => g.shown.size
  | none => 1

/-- Rows by group. -/
def split (v : View) (rows : List Nat) : List (List Nat) :=
  (List.range v.groupCount).map fun g => rows.filter (v.groupOf · == some g)

/-- The visible rows by group. -/
def partitions (v : View) (ordered : Bool) : Option (List (List Nat)) :=
  (v.indices ordered).map v.split

/-! ## Cells -/

/-- The cells of a row of the table. -/
def cellsOf (v : View) (row : Nat) : Option (List Value) :=
  v.data.columns.mapM fun e => e.2.get? row

/-- The visible rows in order, as lists of cells. -/
def rows (v : View) : Option (List (List Value)) := do (← v.sorted).mapM v.cellsOf

/-- The visible cells of a column in order; the outer option is none for an unknown column. -/
def columnValues (v : View) (name : String) : Option (Option (List Value)) :=
  (v.data.column? name).map fun c => do (← v.sorted).mapM c.get?

/-! ## Scanning -/

/-- Which of the visible rows to visit. -/
structure ScanOptions where
  ordered : Bool
  limit : Option Nat
  offset : Nat

/-- The rows up to the first one at which a scan breaks, which is visited too. -/
def upTo (breaks : Nat → Bool) : List Nat → List Nat
  | [] => []
  | row :: rest => if breaks row then [row] else row :: upTo breaks rest

/-- The rows visited. -/
def scan (v : View) (o : ScanOptions) (breaks : Nat → Bool) : Option (List Nat) :=
  (v.indices o.ordered).map fun rows =>
    let rows := rows.drop o.offset
    upTo breaks (match o.limit with
      | some n => rows.take n
      | none => rows)

/-! ## Copying rows -/

/-- Copies rows, with their groups, into an unfiltered and unordered view. -/
def takeRows (v : View) (rows : List Nat) : Option View := do
  let data ← v.data.take? rows
  let groups ← v.groups.mapM fun (g : Grouping) => g.take? rows
  return ⟨data, none, groups, none, v.params⟩

/-- Copies the visible rows in order; the copy keeps the order. Without filter and order there
    is nothing to do. -/
def reify (v : View) : Option View := do
  if v.filter.isNone && v.order.isNone then return v
  let rows ← v.sorted
  let copy ← v.takeRows rows
  let order ← v.order.mapM fun (o : RowOrder) => o.take? rows
  return { copy with order := order }

/-- Copies the listed rows in the order given. -/
def reifyRows (v : View) (rows : List Nat) : Except QueryError View :=
  match rows.find? (v.totalRows ≤ ·) with
  | some row => .error (.rowOutOfRange row v.totalRows)
  | none => QueryError.ofRead (v.takeRows rows)

/-! ## Expressions -/

/-- Resolves expressions over the table. -/
def resolve (v : View) (exprs : List (String × ExprSpec)) (options : ResolveOptions) :
    Except QueryError Resolution :=
  ColumnQuery.resolve ⟨[v.data], v.params, options⟩ exprs

end View

end ColumnQuery
