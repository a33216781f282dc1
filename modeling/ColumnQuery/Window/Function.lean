/-
  The window functions: functions of a row's place in its partition.

  A function is applied to a partition as a whole: given the fields of its rows in order, the
  classes of rows that tie and the frame of every row, it answers a value for every row. Fills,
  which step through the rows, are made anew for every partition.
-/
import ColumnQuery.Value.Order

namespace ColumnQuery

inductive WindowFunction where
  | rowNumber | rank | avgRank | denseRank | percentRank | cumeDist | ntile
  | lag | lead | firstValue | lastValue | nthValue | fillDown | fillUp
deriving DecidableEq, Repr

namespace WindowFunction

def all : List WindowFunction :=
  [rowNumber, rank, avgRank, denseRank, percentRank, cumeDist, ntile, lag, lead, firstValue,
    lastValue, nthValue, fillDown, fillUp]

def name : WindowFunction → String
  | rowNumber => "row_number"
  | rank => "rank"
  | avgRank => "avg_rank"
  | denseRank => "dense_rank"
  | percentRank => "percent_rank"
  | cumeDist => "cume_dist"
  | ntile => "ntile"
  | lag => "lag"
  | lead => "lead"
  | firstValue => "first_value"
  | lastValue => "last_value"
  | nthValue => "nth_value"
  | fillDown => "fill_down"
  | fillUp => "fill_up"

def lookup? (name : String) : Option WindowFunction := all.find? (·.name == name)

/-- The number of field expressions. -/
def fieldCount : WindowFunction → Nat
  | lag | lead | firstValue | lastValue | nthValue | fillDown | fillUp => 1
  | _ => 0

/-- The greatest number of parameters. -/
def paramCount : WindowFunction → Nat
  | ntile | nthValue | fillDown | fillUp => 1
  | lag | lead => 2
  | _ => 0

end WindowFunction

end ColumnQuery
