/-
  Aggregates that slide over a partition.

  At every position a reducer holds the rows of that position's frame. From one position to the
  next it releases the rows that leave the frame and takes in those that enter it, so no row is
  taken in twice. Frames only move forward.
-/
import ColumnQuery.Aggregate.Reducer
import ColumnQuery.Window.Peers

namespace ColumnQuery

namespace Reducer

variable {F N : Type} [Quantity N]

/-- Moves from the rows `[r0, r1)` to the rows `[i0, i1)`. -/
def shift (r : Reducer F) (rows : Array (List Value)) (s : AggregateState N) (held : Nat × Nat)
    (frame : Nat × Nat) : AggregateState N :=
  let (r0, r1) := held
  let (i0, i1) := frame
  let leaving := rows.extract r0 (min i0 r1)
  let entering := rows.extract (max r1 i0) i1
  r.addAll (r.removeAll s leaving.toList) entering.toList

/-- The states at the frames, from a state that holds the rows of an earlier frame. -/
def slideFrom (r : Reducer F) (rows : Array (List Value)) (s : AggregateState N)
    (held : Nat × Nat) : List (Nat × Nat) → List (AggregateState N)
  | [] => []
  | frame :: later =>
    let s := r.shift rows s held frame
    s :: r.slideFrom rows s frame later

/-- The states at the frames of a partition. -/
def slide (r : Reducer F) (rows : Array (List Value)) (bounds : List (Nat × Nat)) :
    List (AggregateState N) :=
  r.slideFrom rows r.start (0, 0) bounds

end Reducer

end ColumnQuery
