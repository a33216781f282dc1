/-
  Dates as text, in the ISO 8601 forms.

  Written: `2024-03-01T12:30:00.000Z` and `2024-03-01`; years outside 0000 to 9999 carry a
  sign and are at least four digits wide.

  Read, after trimming, by the first of three forms that matches the whole text:
  * a zoned time: fixed field widths, `T`, `t` or a blank between date and time, an optional
    fraction of a second, and `Z`, `z` or a signed offset `hh:mm` below 24 hours;
  * a local time taken as UTC: `T` between date and time, an optional fraction, and no zone;
  * a date alone.
  In the last two a field may have fewer digits and white space before it, and the year may
  have a sign and then any number of digits. A second may be `60`. Fractions count to the
  millisecond, further digits are dropped.
-/
import ColumnQuery.Calendar.Civil
import ColumnQuery.Number.Decimal
import ColumnQuery.Text.Blank

namespace ColumnQuery.Calendar

open ColumnQuery.Decimal (natOfDigits)

/-! ## Writing -/

/-- A natural number with leading zeros up to `width` digits. -/
def padded (width n : Nat) : String :=
  let ds := Nat.toDigits 10 n
  String.ofList (List.replicate (width - ds.length) '0' ++ ds)

def yearText (year : Int) : String :=
  if 0 ≤ year ∧ year ≤ 9999 then padded 4 year.toNat
  else (if year < 0 then "-" else "+") ++ padded 4 year.natAbs

def CivilDate.text (d : CivilDate) : String :=
  yearText d.year ++ "-" ++ padded 2 d.month ++ "-" ++ padded 2 d.day

def DateTime.text (t : DateTime) : String :=
  t.date.text ++ "T" ++ padded 2 t.hour ++ ":" ++ padded 2 t.minute ++ ":" ++ padded 2 t.second
    ++ "." ++ padded 3 t.millisecond ++ "Z"

/-! ## Reading

A reader takes the text at hand and answers what it read with the rest. -/

/-- Between `least` and `most` decimal digits. -/
def digits? (least most : Nat) (cs : List Char) : Option (Nat × List Char) :=
  let ds := (cs.take most).takeWhile Char.isDigit
  if ds.length < least then none else some (natOfDigits ds, cs.drop ds.length)

def char? (c : Char) : List Char → Option (List Char)
  | d :: rest => if d = c then some rest else none
  | [] => none

/-- A field of at most `width` digits after white space. -/
def field? (width : Nat) (cs : List Char) : Option (Nat × List Char) :=
  digits? 1 width (Text.trimLeft cs)

/-- A year after white space: up to four digits, or a sign and any number of digits. -/
def year? (cs : List Char) : Option (Int × List Char) :=
  match Text.trimLeft cs with
  | '-' :: rest => (digits? 1 rest.length rest).map fun (n, r) => (-(n : Int), r)
  | '+' :: rest => (digits? 1 rest.length rest).map fun (n, r) => ((n : Int), r)
  | cs => (digits? 1 4 cs).map fun (n, r) => ((n : Int), r)

/-- An optional point with at least one digit, in milliseconds. -/
def fraction? : List Char → Option (Nat × List Char)
  | '.' :: rest =>
    let ds := rest.takeWhile Char.isDigit
    if ds.isEmpty then none
    else some (natOfDigits ((ds ++ ['0', '0', '0']).take 3), rest.drop ds.length)
  | cs => some (0, cs)

/-- The milliseconds of a time of day whose fields are in range. -/
def timeOfDay? (hour minute second millis : Nat) : Option Nat :=
  if hour < 24 ∧ minute < 60 ∧ second ≤ 60 then
    some (((hour * 60 + minute) * 60 + second) * 1000 + millis)
  else none

/-- A zone, in minutes east of UTC. -/
def zone? : List Char → Option (Int × List Char)
  | [] => none
  | c :: rest =>
    if c = 'Z' ∨ c = 'z' then some (0, rest)
    else if c = '+' ∨ c = '-' ∨ c = '−' then do
      let (hours, rest) ← digits? 2 2 rest
      let rest ← char? ':' rest
      let (minutes, rest) ← digits? 2 2 rest
      if hours < 24 ∧ minutes < 60 then
        let offset : Int := hours * 60 + minutes
        some (if c = '+' then offset else -offset, rest)
      else none
    else none

/-- A time with a zone, as milliseconds. -/
def zoned? (cs : List Char) : Option Int := do
  let (year, cs) ← digits? 4 4 cs
  let cs ← char? '-' cs
  let (month, cs) ← digits? 2 2 cs
  let cs ← char? '-' cs
  let (day, cs) ← digits? 2 2 cs
  let cs ← match cs with
    | c :: rest => if c = 'T' ∨ c = 't' ∨ c = ' ' then some rest else none
    | [] => none
  let (hour, cs) ← digits? 2 2 cs
  let cs ← char? ':' cs
  let (minute, cs) ← digits? 2 2 cs
  let cs ← char? ':' cs
  let (second, cs) ← digits? 2 2 cs
  let (millis, cs) ← fraction? cs
  let (offset, cs) ← zone? cs
  let date ← civilDate? year month day
  let time ← timeOfDay? hour minute second millis
  if cs.isEmpty then some (startOfDay date + time - offset * 60000) else none

/-- A date with the rest of the text. -/
def looseDate? (cs : List Char) : Option (CivilDate × List Char) := do
  let (year, cs) ← year? cs
  let cs ← char? '-' cs
  let (month, cs) ← field? 2 cs
  let cs ← char? '-' cs
  let (day, cs) ← field? 2 cs
  let date ← civilDate? year month day
  some (date, cs)

/-- A time without a zone, as milliseconds in UTC. -/
def local? (cs : List Char) : Option Int := do
  let (date, cs) ← looseDate? cs
  let cs ← char? 'T' cs
  let (hour, cs) ← field? 2 cs
  let cs ← char? ':' cs
  let (minute, cs) ← field? 2 cs
  let cs ← char? ':' cs
  let (second, cs) ← field? 2 cs
  let (millis, cs) ← fraction? cs
  let time ← timeOfDay? hour minute second millis
  if cs.isEmpty then some (startOfDay date + time) else none

/-- A date alone: the moment at which it begins. -/
def dateAlone? (cs : List Char) : Option Int := do
  let (date, cs) ← looseDate? cs
  if cs.isEmpty then some (startOfDay date) else none

/-- Reads a moment in any of the three forms. -/
def readMoment? (s : String) : Option Int :=
  let cs := Text.trim s.toList
  zoned? cs <|> local? cs <|> dateAlone? cs

end ColumnQuery.Calendar
