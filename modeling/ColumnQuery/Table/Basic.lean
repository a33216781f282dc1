/-
  Tables: named columns of equal length in a fixed order.

  A table without columns still has a row count. Changing a table either gives the changed
  table or an error that names the column at fault, so a failed change leaves nothing behind.
  Names are distinct, and every column is as long as the table has rows; `add` and `set` refuse
  whatever would break this.
-/
import ColumnQuery.Column

namespace ColumnQuery

/-- Why a table cannot be built or changed. -/
inductive TableError where
  | duplicateColumn (name : String)
  | unknownColumn (name : String)
  | lengthMismatch (column : String) (expected actual : Nat)
deriving DecidableEq, Repr

def TableError.message : TableError → String
  | duplicateColumn name => "duplicate column name: " ++ name
  | unknownColumn name => "unknown column: " ++ name
  | lengthMismatch column expected actual =>
    s!"column length mismatch for {column}: expected {expected} values, got {actual}"

structure Table where
  columns : List (String × Column)
  rowCount : Nat
deriving Inhabited

namespace Table

def empty : Table := ⟨[], 0⟩

/-- No columns and `n` rows. -/
def withRows (n : Nat) : Table := ⟨[], n⟩

def names (t : Table) : List String := t.columns.map (·.1)

def columnCount (t : Table) : Nat := t.columns.length

/-- The position of a column. -/
def indexOf? (t : Table) (name : String) : Option Nat := t.columns.findIdx? (·.1 == name)

def column? (t : Table) (name : String) : Option Column := t.columns.lookup name

def columnAt? (t : Table) (i : Nat) : Option Column := t.columns[i]?.map (·.2)

/-- The cell at a row and a column position; none outside the table. -/
def cell? (t : Table) (row col : Nat) : Option Value := (t.columnAt? col).bind (·.get? row)

/-- A column that joins others must be as long as they are. -/
def checkLength (t : Table) (name : String) (c : Column) : Except TableError Unit :=
  if !t.columns.isEmpty && c.length != t.rowCount then
    .error (.lengthMismatch name t.rowCount c.length)
  else .ok ()

/-- Appends a column under a new name. The first column sets the row count. -/
def add (t : Table) (name : String) (c : Column) : Except TableError Table := do
  if (t.column? name).isSome then throw (.duplicateColumn name)
  t.checkLength name c
  return ⟨t.columns ++ [(name, c)], if t.columns.isEmpty then c.length else t.rowCount⟩

/-- Replaces a column where it stands, or appends it. A column that stands alone may be
    replaced by one of another length. -/
def set (t : Table) (name : String) (c : Column) : Except TableError Table := do
  if (t.column? name).isSome then
    let alone := t.columns.length == 1
    unless alone do t.checkLength name c
    let columns := t.columns.map fun e => if e.1 == name then (name, c) else e
    return ⟨columns, if alone then c.length else t.rowCount⟩
  else t.add name c

def ofColumns (columns : List (String × Column)) : Except TableError Table :=
  columns.foldlM (fun t e => t.add e.1 e.2) empty

def ofValues (columns : List (String × List Value)) : Except TableError Table :=
  ofColumns (columns.map fun e => (e.1, Column.ofValues e.2))

/-- The columns named first in the pairs, under the names that stand second. -/
def project (t : Table) (columns : List (String × String)) : Except TableError Table :=
  columns.foldlM (fun out e =>
    match t.column? e.1 with
    | some c => out.add e.2 c
    | none => throw (.unknownColumn e.1)) (withRows t.rowCount)

/-- Copies the listed rows of every column; none if a row lies outside. -/
def take? (t : Table) (rows : List Nat) : Option Table := do
  let columns ← t.columns.mapM fun e => (e.2.take? rows).map (e.1, ·)
  return ⟨columns, rows.length⟩

/-- The rows as lists of cells, in column order. -/
def rows (t : Table) : List (List Value) :=
  (List.range t.rowCount).map fun row => t.columns.map fun e => (e.2.get? row).getD .null

end Table

end ColumnQuery
