/-
  The values of the window functions over one partition.

  A function sees the classes of tied rows, the frames of all positions and the values of its
  field in order, and answers a value for every position. Ranks count positions from `1`; a
  fill steps through the positions.
-/
import ColumnQuery.Number.Arithmetic
import ColumnQuery.Window.Fill
import ColumnQuery.Window.Function
import ColumnQuery.Window.Peers

namespace ColumnQuery

namespace WindowFunction

/-- A parameter as a count; the default unless it is a finite number that is not negative. -/
def countParam (params : List Value) (i default : Nat) : Nat :=
  match params[i]?.bind Value.number? with
  | some x => if (Number.truncated? x).isSome && x >= 0.0 then Number.toNat64 x else default
  | none => default

/-- A parameter; null if it is not given. -/
def param (params : List Value) (i : Nat) : Value := params[i]?.getD .null

/-- The share of the rows that do not come after the class of a position. -/
def distribution (peers : Peers) (i : Nat) : Float :=
  Number.ofNat (peers.last i) / Number.ofNat peers.size

/-- The number of the bucket of a position among `n` buckets of like size; null unless `n` is
    positive. -/
def bucket (n : Float) (peers : Peers) (i : Nat) : Value :=
  if n.isNaN || n <= 0.0 then .null else .number (n * distribution peers i).ceil

/-- A value for every position, from the position and its frame `[i0, i1)`. -/
def each (bounds : List (Nat × Nat)) (f : Nat → Nat → Nat → Value) : List Value :=
  bounds.zipIdx.map fun ((i0, i1), i) => f i i0 i1

/-- The values of a function at all positions of a partition. -/
def values (f : WindowFunction) (params : List Value) (peers : Peers)
    (bounds : List (Nat × Nat)) (field : Array Value) : List Value :=
  match f with
  | rowNumber => each bounds fun i _ _ => .ofNat (i + 1)
  | rank => each bounds fun i _ _ => .ofNat (peers.first i + 1)
  | avgRank =>
    each bounds fun i _ _ => .number (Number.ofNat (peers.first i + 1 + peers.last i) / 2.0)
  | denseRank => each bounds fun i _ _ => .ofNat (peers.group i + 1)
  | percentRank =>
    each bounds fun i _ _ =>
      if peers.size ≤ 1 then .number 0.0
      else .number (Number.ofNat (peers.first i) / Number.ofNat (peers.size - 1))
  | cumeDist => each bounds fun i _ _ => .number (distribution peers i)
  | ntile =>
    let n := (params[0]?.map Value.toFloat).getD Number.notANumber
    each bounds fun i _ _ => bucket n peers i
  | lag =>
    let offset := countParam params 0 1
    each bounds fun i _ _ => if offset ≤ i then fieldAt field (i - offset) else param params 1
  | lead =>
    let offset := countParam params 0 1
    each bounds fun i _ _ =>
      if i + offset < peers.size then fieldAt field (i + offset) else param params 1
  | firstValue => each bounds fun _ i0 i1 => if i0 < i1 then fieldAt field i0 else .null
  | lastValue => each bounds fun _ i0 i1 => if i0 < i1 then fieldAt field (i1 - 1) else .null
  | nthValue =>
    let n := countParam params 0 0
    each bounds fun _ i0 i1 =>
      let place := Number.wrapNat64 (i0 + n - 1)
      if n ≠ 0 ∧ place < i1 then fieldAt field place else .null
  | fillDown => (Stepwise.overPartition (FillDown.ofDefault (param params 0)) field).1
  | fillUp => (Stepwise.overPartition (FillUp.ofDefault (param params 0)) field).1

end WindowFunction

end ColumnQuery
