/-
  The texts of numbers.

  Written in three ways:
  * `Number.text`, as values show: never an exponent; `NaN`, `Infinity`, `-Infinity`; a whole
    number of magnitude below `10^21` is written as the nearest 64-bit integer (so `-0` is `0`
    and what lies beyond 64 bits is held at the end of their range);
  * `Number.tokenText`, as tokens show in messages: always with a fraction or an exponent;
  * `Number.exponentText`, one digit before the point and an exponent.

  Read in two ways:
  * `Number.coerce`, a whole text as a number: blank text is `0`, `Infinity` may be signed,
    `0x`, `0o` and `0b` (no sign) select a radix, anything else is plain decimal text;
  * `Number.spelled?`, plain decimal text or a signed word for infinity or not-a-number.
-/
import ColumnQuery.Number.Decimal
import ColumnQuery.Text.Blank

namespace ColumnQuery.Number

/-! ## Writing -/

/-- The least magnitude of whole numbers that are written by their shortest digits. -/
def wholeLimit : Nat := Nat.pow 10 21

def text (x : Float) : String :=
  match Binary64.ofFloat x with
  | .nan => "NaN"
  | .infinite negative => if negative then "-Infinity" else "Infinity"
  | .finite negative m e =>
    if Binary64.isWhole m e && Binary64.wholePart m e < wholeLimit then toString (toInt64 x)
    else (Decimal.shortest negative m e).positional 0

/-- Exponents appear from `10^16` up and below `10^-4`. -/
def usesExponent (d : Decimal) : Bool :=
  let leading := (Decimal.digitCount d.coefficient : Int) - 1 + d.exponent
  d.coefficient != 0 && (16 ≤ leading || leading < -4)

def tokenText (x : Float) : String :=
  match Binary64.ofFloat x with
  | .nan => "NaN"
  | .infinite negative => if negative then "-inf" else "inf"
  | .finite negative m e =>
    let d := Decimal.shortest negative m e
    if usesExponent d then d.scientific else d.positional 1

def exponentText (x : Float) : String :=
  match Binary64.ofFloat x with
  | .nan => "NaN"
  | .infinite negative => if negative then "-Infinity" else "Infinity"
  | .finite negative m e => (Decimal.shortest negative m e).scientific

/-! ## Reading -/

/-- The value of a digit in radix up to 16. -/
def digitValue? (radix : Nat) (c : Char) : Option Nat :=
  let v :=
    if c.isDigit then some (c.toNat - '0'.toNat)
    else if 'a' ≤ c ∧ c ≤ 'f' then some (c.toNat - 'a'.toNat + 10)
    else if 'A' ≤ c ∧ c ≤ 'F' then some (c.toNat - 'A'.toNat + 10)
    else none
  v.filter (· < radix)

/-- The natural number that digits of a radix spell, if there is at least one. -/
def natOfRadix? (radix : Nat) (ds : List Char) : Option Nat :=
  if ds.isEmpty then none
  else ds.foldlM (fun n c => (digitValue? radix c).map (radix * n + ·)) 0

/-- The radix that the first two characters select, with the digits after them. -/
def radixMark? : List Char → Option (Nat × List Char)
  | '0' :: c :: ds =>
    if c = 'x' ∨ c = 'X' then some (16, ds)
    else if c = 'o' ∨ c = 'O' then some (8, ds)
    else if c = 'b' ∨ c = 'B' then some (2, ds)
    else none
  | _ => none

/-- The value of digits after a radix mark, which must fit in 64 bits. -/
def coerceRadix (radix : Nat) (ds : List Char) : Float :=
  match natOfRadix? radix ds with
  | some n => if n ≤ maxNat64 then ofNat n else notANumber
  | none => notANumber

def infinityWord : List Char := "Infinity".toList

/-- A trimmed text as a number. -/
def coerceTrimmed (cs : List Char) : Float :=
  if cs.isEmpty then 0.0
  else
    let (negative, unsigned) := Decimal.splitSign cs
    if unsigned = infinityWord then if negative then -infinity else infinity
    else
      match radixMark? unsigned with
      | some (radix, ds) => if unsigned.length = cs.length then coerceRadix radix ds else notANumber
      | none => match Decimal.read? cs with
        | some d => d.toFloat
        | none => notANumber

/-- A whole text as a number; not-a-number if it spells none. -/
def coerce (s : String) : Float := coerceTrimmed (Text.trim s.toList)

/-- Plain decimal text, or a word for infinity or not-a-number in any case. -/
def spelled? (cs : List Char) : Option Float :=
  let (negative, unsigned) := Decimal.splitSign cs
  let word := unsigned.map Char.toLower
  if word = "inf".toList ∨ word = "infinity".toList then
    some (if negative then -infinity else infinity)
  else if word = "nan".toList then some notANumber
  else (Decimal.read? cs).map Decimal.toFloat

end ColumnQuery.Number
