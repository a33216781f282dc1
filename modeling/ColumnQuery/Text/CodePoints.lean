/-
  Classes of characters as tables of code point ranges.

  A table lists disjoint ranges in ascending order, both ends included. The tables of this
  folder hold what lies beyond ASCII; each class says in plain code what it holds of ASCII.
-/

namespace ColumnQuery.Text

/-- Ranges of code points, both ends included. -/
abbrev CodePoints := List (Nat × Nat)

/-- Whether a range holds the character. -/
def CodePoints.has (ranges : CodePoints) (c : Char) : Bool :=
  ranges.any fun r => r.1 ≤ c.toNat && c.toNat ≤ r.2

/-- Whether the character is in ASCII. -/
def isAscii (c : Char) : Bool := c.toNat < 128

end ColumnQuery.Text
