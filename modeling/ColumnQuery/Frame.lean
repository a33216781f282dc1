/-
  Sliding frames.

  A frame is given by offsets from the current row to its first and its last row; an absent
  offset is unbounded on that side. With `peers`, a frame is widened to whole classes of rows
  that tie with its first and its last one.
-/

namespace ColumnQuery

/-- Offsets of the first and the last row of a frame, and whether it takes in their peers. -/
structure Frame where
  start : Option Int
  stop : Option Int
  peers : Bool
deriving DecidableEq, Repr, Inhabited

namespace Frame

/-- Everything up to and including the current row. -/
def cumulative : Frame := ⟨none, some 0, false⟩

/-- The whole partition. -/
def whole : Frame := ⟨none, none, false⟩

end Frame

end ColumnQuery
