/-
  Dynamically typed cell values.

  A value is valid unless it is null or not-a-number; aggregates observe valid values only.
  Besides its type a value has up to three readings: as a number (`number?`), as a truth value
  (`truthy`) and as text (`Value.text`, in `Value.Text`).
-/
import ColumnQuery.Number.Text

namespace ColumnQuery

/-- A cell value. Dates are milliseconds since 1970-01-01T00:00Z; the entries of an object are
    in ascending order of their keys. -/
inductive Value where
  | null
  | boolean (b : Bool)
  | number (x : Float)
  | string (s : String)
  | date (ms : Int)
  | array (items : List Value)
  | object (entries : List (String × Value))
deriving Inhabited

namespace Value

def isNull : Value → Bool
  | null => true
  | _ => false

/-- Everything but null and not-a-number. -/
def isValid : Value → Bool
  | null => false
  | number x => !x.isNaN
  | _ => true

def typeName : Value → String
  | null => "null"
  | boolean _ => "boolean"
  | number _ => "number"
  | string _ => "string"
  | date _ => "date"
  | array _ => "array"
  | object _ => "object"

/-- The numeric reading, if the type has one. -/
def number? : Value → Option Float
  | number x => some x
  | boolean b => some (if b then 1.0 else 0.0)
  | date ms => some (Number.ofInt ms)
  | string s => some (Number.coerce s)
  | null | array _ | object _ => none

/-- The numeric reading; not-a-number where there is none. -/
def toFloat (v : Value) : Float := v.number?.getD Number.notANumber

def string? : Value → Option String
  | string s => some s
  | _ => none

def truthy : Value → Bool
  | null => false
  | boolean b => b
  | number x => x != 0.0 && !x.isNaN
  | string s => s != ""
  | date _ | array _ | object _ => true

def ofNat (n : Nat) : Value := number (Number.ofNat n)

/-- The value, or null if there is none. -/
def ofOption (v : Option Value) : Value := v.getD null

/-! ## Objects -/

/-- The entry of a key. -/
def field? (entries : List (String × Value)) (key : String) : Option Value := entries.lookup key

/-- Puts an entry at the place of its key, replacing an entry of the same key. -/
def insertField : List (String × Value) → String → Value → List (String × Value)
  | [], key, v => [(key, v)]
  | (k, w) :: rest, key, v =>
    if key < k then (key, v) :: (k, w) :: rest
    else if k < key then (k, w) :: insertField rest key v
    else (k, v) :: rest

/-- The object of the given entries; of entries with one key the last one stays. -/
def ofFields (entries : List (String × Value)) : Value :=
  object (entries.foldl (fun acc e => insertField acc e.1 e.2) [])

end Value

end ColumnQuery
