/-
  Equality, order and comparison of values.

  * `Value.same` is equality as grouping, joins and counts of distinct values see it: numbers
    are equal as numbers, with not-a-number equal to itself, and nothing equals a value of
    another type.
  * `Value.order` sorts: invalid values come last and are ties; values of different types go
    by type; arrays go item by item and then by length, objects by the number of entries.
  * `Value.compare?` is the relation behind `<` and its kin: texts compare as texts, other
    pairs as numbers; null, arrays and objects compare with nothing.
-/
import ColumnQuery.Value.Basic

namespace ColumnQuery

namespace Value

mutual

/-- Equality of values as keys. -/
def same : Value → Value → Bool
  | null, null => true
  | boolean a, boolean b => a == b
  | number a, number b => Number.same a b
  | string a, string b => a == b
  | date a, date b => a == b
  | array a, array b => sameItems a b
  | object a, object b => sameEntries a b
  | _, _ => false

def sameItems : List Value → List Value → Bool
  | [], [] => true
  | a :: as, b :: bs => same a b && sameItems as bs
  | _, _ => false

def sameEntries : List (String × Value) → List (String × Value) → Bool
  | [], [] => true
  | (k, a) :: as, (l, b) :: bs => k == l && same a b && sameEntries as bs
  | _, _ => false

end

instance : BEq Value := ⟨same⟩

/-- The place of a type among the types. -/
def typeRank : Value → Nat
  | boolean _ => 0
  | number _ => 1
  | date _ => 2
  | string _ => 3
  | array _ => 4
  | object _ => 5
  | null => 6

mutual

/-- The sorting order. -/
def order (a b : Value) : Ordering :=
  match a.isValid, b.isValid with
  | false, false => .eq
  | false, true => .gt
  | true, false => .lt
  | true, true =>
    match a, b with
    | boolean a, boolean b => compare a b
    | number a, number b => Number.order a b
    | date a, date b => compare a b
    | string a, string b => compare a b
    | array a, array b => orderItems a b
    | object a, object b => compare a.length b.length
    | a, b => compare a.typeRank b.typeRank

/-- Item by item; of two lists that agree so far the shorter one is less. -/
def orderItems : List Value → List Value → Ordering
  | [], [] => .eq
  | [], _ :: _ => .lt
  | _ :: _, [] => .gt
  | a :: as, b :: bs =>
    match order a b with
    | .eq => orderItems as bs
    | o => o

end

/-- The relational comparison; `none` if the values are not comparable. -/
def compare? : Value → Value → Option Ordering
  | string a, string b => some (compare a b)
  | null, _ | _, null => none
  | array _, _ | object _, _ | _, array _ | _, object _ => none
  | a, b => Number.compare? a.toFloat b.toFloat

/-- The value occurs in the list. -/
def occursIn (v : Value) (vs : List Value) : Bool := vs.any (same v ·)

end Value

end ColumnQuery
