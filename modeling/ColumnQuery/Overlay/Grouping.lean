/-
  Groupings of the rows of a table by keys.

  Groups are numbered in the order in which their keys come up. A grouping keeps the values of
  its keys, so that it outlives the columns from which they were computed. Narrowing a grouping
  to the visible rows drops the groups that are left empty and numbers the others anew, in
  their order; it always starts from the groups of all rows, so that rows which become visible
  again find their group.
-/
import ColumnQuery.Formula.Rows
import ColumnQuery.Value.Order

namespace ColumnQuery

/-- Numbered groups: what every group is like, and the group of every row. -/
structure GroupTable where
  /-- The names of the keys. -/
  names : List String
  /-- The number of groups. -/
  size : Nat
  /-- The keys of every group. -/
  values : List (List Value)
  /-- The first row of every group. -/
  rows : List Nat
  /-- The group of every row; none for rows without a group. -/
  keys : Array (Option Nat)
deriving Inhabited

namespace GroupTable

/-- The group of a row; none also for a row outside the table. -/
def groupOf (t : GroupTable) (row : Nat) : Option Nat := (t.keys[row]?).join

/-- No groups, and `total` rows without one. -/
def empty (names : List String) (total : Nat) : GroupTable :=
  ⟨names, 0, [], [], Array.replicate total none⟩

/-- The number of the group of a key, and the groups with a new one if no group has the key; the
    new group is not counted yet. -/
def groupFor (t : GroupTable) (row : Nat) (key : List Value) : Nat × GroupTable :=
  match t.values.findIdx? (Value.sameItems · key) with
  | some g => (g, t)
  | none => (t.size, { t with values := t.values ++ [key], rows := t.rows ++ [row] })

/-- Puts a row into the group of its key, or into a new group; none for a row outside. A group is
    counted when its number is the next one. -/
def add? (t : GroupTable) (row : Nat) (key : List Value) : Option GroupTable :=
  if row < t.keys.size then
    let (g, u) := t.groupFor row key
    some { u with
      size := if g = t.size then t.size + 1 else t.size
      keys := t.keys.setIfInBounds row (some g) }
  else none

/-- Groups the listed rows among `total` rows by the values of formulas. -/
def build? (names : List String) (keys : List Formula) (rows : List Nat) (total : Nat) :
    Option GroupTable :=
  rows.foldlM (fun t row => do t.add? row (← Formula.evalKey keys row)) (empty names total)

/-- The groups that occur among `ids`, each with the place where it occurs first. -/
def occurring (t : GroupTable) (ids : Array (Option Nat)) : List (Nat × Nat) :=
  (List.range t.size).filterMap fun g => (ids.findIdx? (· == some g)).map (g, ·)

/-- The groups that occur among `ids`, numbered anew in their order, over rows whose groups
    were `ids`. -/
def restrict (t : GroupTable) (ids : Array (Option Nat)) : GroupTable :=
  let kept := t.occurring ids
  ⟨t.names, kept.length, kept.filterMap (t.values[·.1]?), kept.map (·.2),
    ids.map (·.bind fun g => kept.findIdx? (·.1 == g))⟩

/-- The groups of the rows in a set; the other rows have none. -/
def visible (t : GroupTable) (rows : BitSet) : Array (Option Nat) :=
  t.keys.mapIdx fun row id => if rows.contains row then id else none

end GroupTable

/-- The groups of the visible rows, with the groups of all rows from which they come. -/
structure Grouping where
  shown : GroupTable
  whole : GroupTable
deriving Inhabited

namespace Grouping

/-- All rows are visible. -/
def ofTable (t : GroupTable) : Grouping := ⟨t, t⟩

/-- The groups of the rows in a set. -/
def narrow (g : Grouping) (rows : BitSet) : Grouping :=
  ⟨g.whole.restrict (g.whole.visible rows), g.whole⟩

/-- The groups for a table whose row `i` was row `rows[i]`; none if a row lies outside. -/
def take? (g : Grouping) (rows : List Nat) : Option Grouping :=
  (rows.mapM (g.whole.keys[·]?)).map fun ids => ofTable (g.whole.restrict ids.toArray)

end Grouping

end ColumnQuery
