/-
  The running state of aggregates over the rows of one group or frame, and the values read off
  it.

  The state is shared by all aggregates of one list of fields. Every aggregate keeps up its own
  part of it (`absorb`, `release`) and reads its value off the parts it requires (`value`).
  Aggregates see only rows whose fields are all valid. Rows are released in the order in which
  they were taken in.
-/
import ColumnQuery.Aggregate.Basic
import ColumnQuery.Aggregate.Quantity
import ColumnQuery.Value.Text

namespace ColumnQuery

open Quantity (Moments CoMoments)

/-- What has been taken in and not released. -/
structure AggregateState (N : Type) where
  /-- All rows. -/
  count : Nat
  /-- Rows whose fields are all valid; the parts below are about these. -/
  valid : Nat
  sum : N
  product : N
  moments : Moments N
  coMoments : CoMoments N
  least : Option Value
  greatest : Option Value
  any : Option Value
  /-- First fields, oldest first. -/
  values : Array Value
  /-- Distinct first fields with their numbers, in the order in which they came up. -/
  distinct : List (Value × Nat)
  /-- Pairs of the first two fields, oldest first. -/
  entries : Array (Value × Value)

namespace AggregateState

def empty [Quantity N] : AggregateState N :=
  ⟨0, 0, Quantity.zero, Quantity.zero, .empty, .empty, none, none, none, #[], [], #[]⟩

end AggregateState

/-- Counts one more occurrence of a value. -/
def countValue (v : Value) : List (Value × Nat) → List (Value × Nat)
  | [] => [(v, 1)]
  | (w, n) :: rest => if w.same v then (w, n + 1) :: rest else (w, n) :: countValue v rest

/-- Counts one occurrence less; a value that is gone leaves the list. -/
def uncountValue (v : Value) : List (Value × Nat) → List (Value × Nat)
  | [] => []
  | (w, n) :: rest =>
    if w.same v then if n ≤ 1 then rest else (w, n - 1) :: rest
    else (w, n) :: uncountValue v rest

/-- The first value that occurs most often. -/
def mostFrequent (counts : List (Value × Nat)) : Option Value :=
  (counts.foldl (fun (best : Option (Value × Nat)) e =>
    match best with
    | some b => if b.2 < e.2 then some e else some b
    | none => some e) none).map (·.1)

/-- The first value that no other one precedes in the wanted direction. -/
def extremeValue (wanted : Ordering) (values : List Value) : Option Value :=
  values.foldl (fun best v =>
    match best with
    | some b => if v.order b == wanted then some v else some b
    | none => some v) none

/-- Two optional values are the same. -/
def sameOption : Option Value → Option Value → Bool
  | some v, some w => v.same w
  | none, none => true
  | _, _ => false

/-- Drops the oldest item. -/
def dropOldest (items : Array α) : Array α := items.extract 1 items.size

namespace Aggregate

variable {N : Type} [Quantity N]

def firstField (fields : List Value) : Value := fields[0]?.getD .null

/-- A field as a number; not-a-number where there is none. -/
def quantityField (fields : List Value) (i : Nat) : N :=
  Quantity.ofValue (fields[i]?.getD (.number Number.notANumber))

/-- The state before the first row. -/
def start (a : Aggregate) (s : AggregateState N) : AggregateState N :=
  match a with
  | product => { s with product := Quantity.one }
  | _ => s

/-- Takes in the fields of a row, which `s.valid` already counts. -/
def absorb (a : Aggregate) (s : AggregateState N) (fields : List Value) : AggregateState N :=
  match a with
  | any => { s with any := s.any.or (some (firstField fields)) }
  | arrayAgg => { s with values := s.values.push (firstField fields) }
  | distinct => { s with distinct := countValue (firstField fields) s.distinct }
  | objectAgg =>
    { s with entries := s.entries.push (firstField fields, fields[1]?.getD .null) }
  | sum => { s with sum := s.sum + quantityField fields 0 }
  | product => { s with product := s.product * quantityField fields 0 }
  | mean => { s with moments := s.moments.add s.valid (quantityField fields 0) }
  | min => { s with least := extremeValue .lt (s.least.toList ++ [firstField fields]) }
  | max => { s with greatest := extremeValue .gt (s.greatest.toList ++ [firstField fields]) }
  | covariance =>
    { s with
      coMoments := s.coMoments.add s.valid (quantityField fields 0) (quantityField fields 1) }
  | count | valid | invalid | arrayAggDistinct | mode | entriesAgg | variance | varianceP | stdev
  | stdevP | median | quantile | covarianceP | corr => s

/-- The product of the values still held. -/
def productOf (values : Array Value) : N :=
  values.foldl (fun p v => p * Quantity.ofValue v) Quantity.one

/-- Releases the fields of the oldest row, which `s.valid` no longer counts. A product cannot
    give a zero back, and an extreme value that leaves is sought anew: both look at the values
    still held. -/
def release (a : Aggregate) (s : AggregateState N) (fields : List Value) : AggregateState N :=
  match a with
  | any =>
    if sameOption s.any fields[0]? then { s with any := s.values[0]? } else s
  | arrayAgg => { s with values := dropOldest s.values }
  | distinct => { s with distinct := uncountValue (firstField fields) s.distinct }
  | objectAgg => { s with entries := dropOldest s.entries }
  | sum => { s with sum := s.sum - quantityField fields 0 }
  | product =>
    let v : N := quantityField fields 0
    { s with product := if Quantity.isZero v then productOf s.values else s.product / v }
  | mean => { s with moments := s.moments.remove s.valid (quantityField fields 0) }
  | min =>
    if sameOption s.least (some (firstField fields)) then
      { s with least := extremeValue .lt s.values.toList }
    else s
  | max =>
    if sameOption s.greatest (some (firstField fields)) then
      { s with greatest := extremeValue .gt s.values.toList }
    else s
  | covariance =>
    { s with
      coMoments := s.coMoments.remove s.valid (quantityField fields 0) (quantityField fields 1) }
  | count | valid | invalid | arrayAggDistinct | mode | entriesAgg | variance | varianceP | stdev
  | stdevP | median | quantile | covarianceP | corr => s

end Aggregate

/-! ## Values -/

namespace AggregateState

variable {N : Type} [Quantity N]

/-- The mean square deviation of a sample, or of a whole population. -/
def variance (s : AggregateState N) (sample : Bool) : N :=
  s.moments.dev / Quantity.ofNat (if sample then s.valid - 1 else s.valid)

/-- The mean product of deviations of a sample, or of a whole population. -/
def covariance (s : AggregateState N) (sample : Bool) : N :=
  s.coMoments.comoment / Quantity.ofNat (if sample then s.valid - 1 else s.valid)

end AggregateState

/-- The value at `(n - 1) · p` among `n` sorted numbers, interpolated between neighbours. There
    is none without numbers or for `p` outside `[0, 1]`. -/
def quantileOf (values : List Value) (p : Float) : Value :=
  let sorted := ((values.map Value.toFloat).filter fun x => !x.isNaN).mergeSort
    fun x y => (Number.order x y).isLE
  if sorted.isEmpty || !(0.0 ≤ p && p ≤ 1.0) then .null
  else
    let h := Number.ofNat (sorted.length - 1) * p
    let low := Number.toNat64 h
    let high := min (low + 1) (sorted.length - 1)
    let a := sorted[low]?.getD 0.0
    let b := sorted[high]?.getD 0.0
    .number (a + (h - Number.ofNat low) * (b - a))

/-- A number, if at least `least` valid rows are held. -/
def numberIf (s : AggregateState N) (least : Nat) (x : Float) : Value :=
  if least ≤ s.valid then .number x else .null

namespace Aggregate

/-- The value of an aggregate. -/
def value (a : Aggregate) (params : List Value) (s : AggregateState Float) : Value :=
  match a with
  | count => .ofNat s.count
  | valid => .ofNat s.valid
  | invalid => .ofNat (s.count - s.valid)
  | any => .ofOption s.any
  | arrayAgg => .array s.values.toList
  | distinct => .ofNat s.distinct.length
  | arrayAggDistinct => .array (s.distinct.map (·.1))
  | mode => .ofOption (mostFrequent s.distinct)
  | objectAgg => .ofFields (s.entries.toList.map fun e => (e.1.text, e.2))
  | entriesAgg => .array (s.entries.toList.map fun e => .array [e.1, e.2])
  | sum => numberIf s 1 s.sum
  | product => numberIf s 1 s.product
  | mean => numberIf s 1 s.moments.mean
  | variance => numberIf s 2 (s.variance true)
  | varianceP => numberIf s 1 (s.variance false)
  | stdev => numberIf s 2 (s.variance true).sqrt
  | stdevP => numberIf s 1 (s.variance false).sqrt
  | min => .ofOption s.least
  | max => .ofOption s.greatest
  | median => quantileOf s.values.toList 0.5
  | quantile =>
    quantileOf s.values.toList ((params[0]?.map Value.toFloat).getD Number.notANumber)
  | covariance => numberIf s 2 (s.covariance true)
  | covarianceP => numberIf s 1 (s.covariance false)
  | corr => numberIf s 2 (s.coMoments.comoment / (s.coMoments.devX * s.coMoments.devY).sqrt)

end Aggregate

end ColumnQuery
