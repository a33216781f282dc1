/-
  The fills: window functions that step through a partition.

  A fill answers the positions of a partition one after the other, from what it knows so far. The
  one carries the last valid value forward. The other looks ahead for the next valid value; it
  keeps where it has found it and how far it has looked, and looks again only once it has passed
  that position.

  One and the same fill goes over all partitions in turn. It forgets what it knows at the start
  of each of them, and keeps nothing but its default.
-/
import ColumnQuery.Value.Order

namespace ColumnQuery

namespace WindowFunction

/-- The field at a position; null outside the partition. -/
def fieldAt (field : Array Value) (i : Nat) : Value := field[i]?.getD .null

end WindowFunction

/-- Operators that answer the positions of a partition one after the other. -/
class Stepwise (σ : Type) where
  /-- Gets ready for a new partition. -/
  begin : σ → σ
  /-- The answer at a position, given the field of the partition. -/
  answer : σ → Array Value → Nat → Value × σ

namespace Stepwise

variable {σ : Type} [Stepwise σ]

/-- The answers at positions in turn. -/
def answers (s : σ) (field : Array Value) : List Nat → List Value × σ
  | [] => ([], s)
  | i :: later =>
    let (x, s) := answer s field i
    let (xs, s) := answers s field later
    (x :: xs, s)

/-- The answers at all positions of a partition. -/
def overPartition (s : σ) (field : Array Value) : List Value × σ :=
  answers (begin s) field (List.range field.size)

/-- The answers over partitions in turn; those without rows are passed over. -/
def overPartitions (s : σ) : List (Array Value) → List (List Value) × σ
  | [] => ([], s)
  | field :: later =>
    let (xs, s) := if field.isEmpty then ([], s) else overPartition s field
    let (rest, s) := overPartitions s later
    (xs :: rest, s)

end Stepwise

/-! ## Forward -/

structure FillDown where
  default : Value
  /-- The last valid value so far. -/
  last : Option Value

namespace FillDown

def ofDefault (default : Value) : FillDown := ⟨default, none⟩

instance : Stepwise FillDown where
  begin s := { s with last := none }
  answer s field i :=
    let v := WindowFunction.fieldAt field i
    if v.isValid then (v, { s with last := some v }) else (s.last.getD s.default, s)

end FillDown

/-! ## Backward -/

structure FillUp where
  default : Value
  /-- The position of the next valid value, when it was last looked for. -/
  next : Option Nat
  /-- Up to where it has been looked for. -/
  scanned : Nat

namespace FillUp

def ofDefault (default : Value) : FillUp := ⟨default, none, 0⟩

/-- The first position of a valid value from a position on. -/
def nextValid? (field : Array Value) (i : Nat) : Option Nat :=
  (List.range' i (field.size - i)).find? fun j => field[j]?.any Value.isValid

/-- Looks for the next valid value from a position on. -/
def look (s : FillUp) (field : Array Value) (i : Nat) : FillUp :=
  let next := nextValid? field i
  { s with next := next, scanned := next.getD field.size }

/-- Whether the position that is known has been passed, and nothing beyond is known. -/
def passed (s : FillUp) (i : Nat) : Bool := s.next.all (· < i) && decide (s.scanned ≤ i)

/-- Looks again if need be. -/
def lookAgain (s : FillUp) (field : Array Value) (i : Nat) : FillUp :=
  if s.passed i then s.look field i else s

/-- The next valid value from a position on, as far as it is known; the default if none is. -/
def known (s : FillUp) (field : Array Value) (i : Nat) : Value :=
  match s.next with
  | some n => if i ≤ n then WindowFunction.fieldAt field n else s.default
  | none => s.default

instance : Stepwise FillUp where
  begin s := { s with next := none, scanned := 0 }
  answer s field i :=
    let s := s.lookAgain field i
    (s.known field i, s)

end FillUp

end ColumnQuery
