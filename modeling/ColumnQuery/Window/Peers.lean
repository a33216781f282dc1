/-
  Tied rows of a partition, and the bounds of frames.

  A partition lists its rows in order, so the rows that tie with a row stand beside it: the
  classes of tied rows are the intervals between their ascending starts. Without an order every
  row is a class of its own.

  The frame of a position is an interval `[first, last)` of positions. Its raw bounds are the
  position plus the offsets, kept within the partition; with `peers` a frame that is not empty
  is widened to whole classes.
-/
import ColumnQuery.Frame

namespace ColumnQuery

/-- The classes of tied rows among `size` positions, by the position of their first row. -/
structure Peers where
  starts : List Nat
  size : Nat
deriving DecidableEq, Repr

namespace Peers

/-- Every row is a class of its own. -/
def alone (size : Nat) : Peers := ⟨List.range size, size⟩

/-- The positions at which a class starts: the first one, and those that do not tie with the
    row before. -/
def startsFrom (tied : α → α → Bool) (previous : Option α) (position : Nat) :
    List α → List Nat
  | [] => []
  | row :: rest =>
    let later := startsFrom tied (some row) (position + 1) rest
    if previous.any (tied · row) then later else position :: later

/-- The classes of a partition in which neighbours may tie. -/
def ofTies (tied : α → α → Bool) (rows : List α) : Peers :=
  ⟨startsFrom tied none 0 rows, rows.length⟩

/-- The number of the class of a position, from `0`. -/
def group (p : Peers) (i : Nat) : Nat := p.starts.countP (· ≤ i) - 1

/-- The first position of the class of a position. -/
def first (p : Peers) (i : Nat) : Nat := p.starts[p.group i]?.getD 0

/-- The position after the class of a position. -/
def last (p : Peers) (i : Nat) : Nat := p.starts[p.group i + 1]?.getD p.size

end Peers

namespace Frame

/-- A position moved by an offset and kept between `0` and `size`. Offsets so large that the
    sum leaves the range of 64 bits end at the same bounds. -/
def shifted (i : Nat) (offset : Int) (size : Nat) : Nat := min (i + offset).toNat size

/-- The bounds from the offsets alone. -/
def rawBounds (f : Frame) (i size : Nat) : Nat × Nat :=
  (match f.start with
    | some d => shifted i d size
    | none => 0,
   match f.stop with
    | some d => shifted i (d + 1) size
    | none => size)

/-- The frame of a position, as an interval that may be empty but never inverted. -/
def bounds (f : Frame) (peers : Peers) (i : Nat) : Nat × Nat :=
  let (i0, i1) := f.rawBounds i peers.size
  let (i0, i1) := if f.peers && i0 < i1 then (peers.first i0, peers.last (i1 - 1)) else (i0, i1)
  (i0, max i1 i0)

/-- The frames of all positions of a partition. -/
def allBounds (f : Frame) (peers : Peers) : List (Nat × Nat) :=
  (List.range peers.size).map (f.bounds peers)

end Frame

end ColumnQuery
