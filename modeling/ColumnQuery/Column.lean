/-
  Columns of cells in three encodings.

  * `values`: any cells;
  * `numbers`: a buffer of doubles with an optional mask of the rows that hold one (the other
    rows are null and have `0` in the buffer; no mask means that every row holds one);
  * `dictionary`: texts, each distinct one stored once, with the key of its text in every row
    and a mask as above (rows without a text have key `0`).

  The view of a column is `get?`, its cells; `take?` copies listed rows and keeps the encoding,
  so that a dictionary may hold texts which no row uses. On a dictionary, a text can be looked
  up once and then compared by key (`lookup`, `keyAt?`).
-/
import ColumnQuery.BitSet
import ColumnQuery.Value.Basic

namespace ColumnQuery

inductive Column where
  | values (cells : Array Value)
  | numbers (entries : Array Float) (validity : Option BitSet)
  | dictionary (words : Array String) (keys : Array Nat) (validity : Option BitSet)
deriving Inhabited

/-- What a dictionary says of a value: its key, or that no row holds it. -/
inductive DictionaryEntry where
  | present (key : Nat)
  | absent
deriving DecidableEq, Repr

namespace Column

/-! ## Construction -/

/-- The mask of the rows that hold something; none if all do. -/
def maskOf (rows : Array (Option α)) : Option BitSet :=
  if rows.all Option.isSome then none
  else some (BitSet.ofPredicate rows.size fun i => rows[i]?.any Option.isSome)

def ofValues (cells : List Value) : Column := values cells.toArray

/-- Every row holds its number. -/
def ofFloats (xs : List Float) : Column := numbers xs.toArray none

/-- Rows without a number are null. -/
def ofFloatOptions (xs : List (Option Float)) : Column :=
  numbers (xs.map (·.getD 0.0)).toArray (maskOf xs.toArray)

/-- Adds a text to the words unless it is there, and gives its key. -/
def intern (words : Array String) (s : String) : Array String × Nat :=
  match words.findIdx? (· == s) with
  | some key => (words, key)
  | none => (words.push s, words.size)

/-- The keys of the rows, with the words that they point into. -/
def encodeFrom : Array String → List (Option String) → Array String × List Nat
  | words, [] => (words, [])
  | words, none :: rest =>
    let (words, keys) := encodeFrom words rest
    (words, 0 :: keys)
  | words, some s :: rest =>
    let (words, key) := intern words s
    let (words, keys) := encodeFrom words rest
    (words, key :: keys)

/-- Rows without a text are null; words are numbered by their first row. -/
def ofTextOptions (rows : List (Option String)) : Column :=
  let (words, keys) := encodeFrom #[] rows
  dictionary words keys.toArray (maskOf rows.toArray)

/-- A numeric buffer if every cell is a number or null, and there is a cell at all. -/
def ofCells (cells : List Value) : Column :=
  let numeric := cells.all fun
    | .number _ | .null => true
    | _ => false
  if numeric && !cells.isEmpty then
    ofFloatOptions (cells.map fun
      | .number x => some x
      | _ => none)
  else ofValues cells

/-! ## Cells -/

def length : Column → Nat
  | values cells => cells.size
  | numbers entries _ => entries.size
  | dictionary _ keys _ => keys.size

/-- Whether a mask admits a row. -/
def admits (validity : Option BitSet) (row : Nat) : Bool :=
  match validity with
  | some mask => mask.contains row
  | none => true

/-- The key of a row: none for a row without a text, and for other encodings. The outer
    option is none for a row outside a dictionary column. -/
def keyAt? : Column → Nat → Option (Option Nat)
  | dictionary _ keys validity, row =>
    keys[row]?.map fun key => if admits validity row then some key else none
  | _, _ => some none

/-- The cell of a row; none for a row outside the column. -/
def get? : Column → Nat → Option Value
  | values cells, row => cells[row]?
  | numbers entries validity, row =>
    entries[row]?.map fun x => if admits validity row then .number x else .null
  | dictionary words keys validity, row =>
    keys[row]?.bind fun key =>
      if admits validity row then words[key]?.map .string else some .null

/-- Looks a value up; none if the column is no dictionary. -/
def lookup : Column → Value → Option DictionaryEntry
  | dictionary words _ _, .string s =>
    some (match words.findIdx? (· == s) with
      | some key => .present key
      | none => .absent)
  | dictionary _ _ _, _ => some .absent
  | _, _ => none

/-- All cells in order. -/
def cells (c : Column) : List Value := (List.range c.length).filterMap c.get?

/-! ## Copying rows -/

/-- The cells of the listed rows; none if a row lies outside. -/
def pick? (c : Column) (rows : List Nat) : Option (List Value) := rows.mapM c.get?

/-- The listed rows in the same encoding; none if a row lies outside. -/
def take? (c : Column) (rows : List Nat) : Option Column :=
  match c with
  | values _ => (c.pick? rows).map ofValues
  | numbers entries validity =>
    (rows.mapM fun row => entries[row]?.map fun x =>
      if admits validity row then some x else none).map ofFloatOptions
  | dictionary words keys validity => do
    let taken ← rows.mapM fun row => keys[row]?
    let held := rows.map fun row => if admits validity row then some () else none
    some (dictionary words taken.toArray (validity.bind fun _ => maskOf held.toArray))

end Column

end ColumnQuery
