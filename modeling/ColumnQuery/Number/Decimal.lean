/-
  Decimal numerals: reading them, and the shortest one for a double.

  A numeral is `± coefficient · 10^exponent`. Three things are defined about it:
  * `Decimal.read?`, the grammar of plain decimal text: an optional sign, digits with an
    optional point (at least one digit before or after it), an optional exponent;
  * `Decimal.toFloat`, the nearest double;
  * `Decimal.shortest`, the numeral with the fewest digits that reads back as a given double
    and, among those, the nearest to it (of two equally near ones the one farther from zero).

  The search for the shortest numeral is exact. A double `m · 2^q` is the nearest one for the
  reals of an interval around it (ends included when `m` is even). For `1, 2, … 17` digits the
  double's two neighbours on that decimal grid are tried; if any grid point lies in the
  interval, so does one of these.
-/
import ColumnQuery.Number.Binary64

namespace ColumnQuery

/-- The number `± coefficient · 10^exponent`. -/
structure Decimal where
  negative : Bool
  coefficient : Nat
  exponent : Int
deriving DecidableEq, Repr

namespace Decimal

/-! ## Reading -/

/-- The natural number that decimal digits spell; no digits spell `0`. -/
def natOfDigits (ds : List Char) : Nat := ds.foldl (fun n c => 10 * n + (c.toNat - '0'.toNat)) 0

/-- Splits off a sign; the flag tells a minus. -/
def splitSign : List Char → Bool × List Char
  | '-' :: rest => (true, rest)
  | '+' :: rest => (false, rest)
  | cs => (false, cs)

/-- The digits at the head, and the rest. -/
def spanDigits (cs : List Char) : List Char × List Char :=
  (cs.takeWhile Char.isDigit, cs.dropWhile Char.isDigit)

/-- The digits before and after the point, and the rest. -/
def spanFraction (cs : List Char) : List Char × List Char × List Char :=
  let (whole, rest) := spanDigits cs
  match rest with
  | '.' :: rest =>
    let (fraction, rest) := spanDigits rest
    (whole, fraction, rest)
  | _ => (whole, [], rest)

/-- An exponent mark with a signed integer, or nothing at all (exponent `0`). -/
def readExponent? : List Char → Option Int
  | [] => some 0
  | c :: cs =>
    if c = 'e' ∨ c = 'E' then
      let (negative, ds) := splitSign cs
      if ds.isEmpty || !ds.all Char.isDigit then none
      else some (if negative then -(natOfDigits ds : Int) else natOfDigits ds)
    else none

/-- A numeral without a sign. -/
def readUnsigned? (negative : Bool) (cs : List Char) : Option Decimal :=
  let (whole, fraction, rest) := spanFraction cs
  if whole.isEmpty && fraction.isEmpty then none
  else (readExponent? rest).map fun e =>
    ⟨negative, natOfDigits (whole ++ fraction), e - fraction.length⟩

/-- Plain decimal text, whole. -/
def read? (cs : List Char) : Option Decimal :=
  let (negative, rest) := splitSign cs
  readUnsigned? negative rest

/-- The number of digits of `n`. -/
def digitCount (n : Nat) : Nat := (Nat.toDigits 10 n).length

/-- The double nearest to `coefficient · 10^exponent`. Above `10^400` that is infinity and
    below `10^-400` it is zero, so those are not computed. -/
def magnitude (coefficient : Nat) (exponent : Int) : Float :=
  let top := (digitCount coefficient : Int) + exponent
  if coefficient = 0 then 0.0
  else if 400 < top then Number.infinity
  else if top < -400 then 0.0
  else Float.ofScientific coefficient (exponent < 0) exponent.natAbs

def toFloat (d : Decimal) : Float :=
  let x := magnitude d.coefficient d.exponent
  if d.negative then -x else x

/-! ## The shortest numeral of a double -/

/-- A positive rational `value / unit` and the ends of the interval of reals that read back as
    the same double, over the same unit. -/
structure Target where
  low : Nat
  value : Nat
  high : Nat
  unit : Nat
  closed : Bool

/-- The target of `m · 2^q`, in quarters of `2^q`. Below a power of two the gap is half as wide. -/
def target (m : Nat) (q : Int) : Target :=
  let e := q - 2
  let up := Nat.pow 2 e.toNat
  let below := if m = Binary64.hiddenBit ∧ -1074 < q then 1 else 2
  ⟨(4 * m - below) * up, 4 * m * up, (4 * m + 2) * up, Nat.pow 2 (-e).toNat, m % 2 = 0⟩

/-- The target in units of `10^k`. -/
def Target.onGrid (t : Target) (k : Int) : Target :=
  let up := Nat.pow 10 (-k).toNat
  { t with
    low := t.low * up
    value := t.value * up
    high := t.high * up
    unit := t.unit * Nat.pow 10 k.toNat }

/-- Whether `g` units lie in the interval. -/
def Target.contains (t : Target) (g : Nat) : Bool :=
  if t.closed then t.low ≤ g * t.unit && g * t.unit ≤ t.high
  else t.low < g * t.unit && g * t.unit < t.high

/-- The nearest of the value's two neighbours on the grid that lie in the interval. -/
def Target.neighbour? (t : Target) : Option Nat :=
  let g := t.value / t.unit
  match t.contains g, t.contains (g + 1) with
  | true, true => some (if 2 * (t.value % t.unit) < t.unit then g else g + 1)
  | true, false => some g
  | false, true => some (g + 1)
  | false, false => none

/-- The exponent of the leading decimal digit. -/
def Target.leadingExponent (t : Target) : Int :=
  if t.unit ≤ t.value then (digitCount (t.value / t.unit) : Int) - 1
  else
    let j := digitCount (t.unit / t.value)
    if t.unit ≤ t.value * Nat.pow 10 (j - 1) then -((j : Int) - 1) else -(j : Int)

/-- Moves trailing zeros of the coefficient into the exponent. -/
def normalized (coefficient : Nat) (exponent : Int) : Nat × Int :=
  if h : coefficient = 0 then (0, 0)
  else if coefficient % 10 = 0 then normalized (coefficient / 10) (exponent + 1)
  else (coefficient, exponent)
termination_by coefficient

/-- The numeral of `n` digits that reads back as the target, if there is one. -/
def Target.withDigits? (t : Target) (n : Nat) : Option (Nat × Int) :=
  let k := t.leadingExponent - (n : Int) + 1
  (t.onGrid k).neighbour?.map fun g => normalized g k

/-- Seventeen digits are always enough. -/
def shortest (negative : Bool) (m : Nat) (q : Int) : Decimal :=
  if m = 0 then ⟨negative, 0, 0⟩
  else
    let t := target m q
    let (c, e) := ((List.range' 1 17).findSome? t.withDigits?).getD (0, 0)
    ⟨negative, c, e⟩

/-! ## Layout -/

def zeros (n : Nat) : String := String.ofList (List.replicate n '0')

/-- Digits with a point, `places` or more of them after it. -/
def positional (d : Decimal) (places : Nat) : String :=
  let ds := Nat.toDigits 10 d.coefficient
  let whole := (ds.length : Int) + d.exponent
  let fraction := if d.exponent < 0 then d.exponent.natAbs else 0
  let text :=
    if whole ≤ 0 then "0." ++ zeros (-whole).toNat ++ String.ofList ds
    else if 0 < fraction then
      String.ofList (ds.take whole.toNat) ++ "." ++ String.ofList (ds.drop whole.toNat)
    else
      String.ofList ds ++ zeros d.exponent.toNat ++ (if places = 0 then "" else "." ++ zeros places)
  (if d.negative then "-" else "") ++ text

/-- One digit, the others after a point, and the exponent. -/
def scientific (d : Decimal) : String :=
  let ds := Nat.toDigits 10 d.coefficient
  let rest := ds.drop 1
  (if d.negative then "-" else "") ++ String.ofList (ds.take 1)
    ++ (if rest.isEmpty then "" else "." ++ String.ofList rest)
    ++ "e" ++ toString (d.exponent + rest.length)

end Decimal

end ColumnQuery
