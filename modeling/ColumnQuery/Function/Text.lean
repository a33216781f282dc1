/-
  Functions on texts, character by character.
-/
import ColumnQuery.Number.Text

namespace ColumnQuery.Text

/-- Whether a text occurs in another. -/
def occursIn (needle : List Char) : List Char → Bool
  | [] => needle.isEmpty
  | c :: cs => needle.isPrefixOf (c :: cs) || occursIn needle cs

/-- Replaces the first occurrence. -/
def replaceFirst (needle replacement : List Char) : List Char → List Char
  | [] => if needle.isEmpty then replacement else []
  | c :: cs =>
    if needle.isPrefixOf (c :: cs) then replacement ++ (c :: cs).drop needle.length
    else c :: replaceFirst needle replacement cs

/-- The parts between the occurrences of a separator, from the left and without overlap. The
    first argument is the part so far in reverse, the second the number of characters of an
    occurrence still to pass. -/
def splitFrom (sep : List Char) : List Char → Nat → List Char → List (List Char)
  | part, _, [] => [part.reverse]
  | part, n + 1, _ :: cs => splitFrom sep part n cs
  | part, 0, c :: cs =>
    if sep.isPrefixOf (c :: cs) then part.reverse :: splitFrom sep [] (sep.length - 1) cs
    else splitFrom sep (c :: part) 0 cs

/-- The parts between separators; an empty separator stands between all characters. -/
def split (sep cs : List Char) : List (List Char) :=
  if sep.isEmpty then cs.map ([·]) else splitFrom sep [] 0 cs

/-- `n` characters that repeat a filling. -/
def filling (fill : List Char) (n : Nat) : List Char :=
  (List.range n).filterMap fun i => fill[i % fill.length]?

/-- Widens a text to `width` characters, at its start or at its end. -/
def pad (atStart : Bool) (width : Nat) (fill cs : List Char) : List Char :=
  if width ≤ cs.length ∨ fill.isEmpty then cs
  else if atStart then filling fill (width - cs.length) ++ cs
  else cs ++ filling fill (width - cs.length)

/-- The characters between two positions, which may come in either order. -/
def between (cs : List Char) (start stop : Nat) : List Char :=
  (cs.take (max start stop)).drop (min start stop)

/-- Whether a text ends with the mark of an exponent. -/
def endsWithMark (cs : List Char) : Bool := cs.getLast?.any fun c => c == 'e' || c == 'E'

/-- The number that a head of a text spells; a head that breaks off at an exponent is passed
    over. -/
def headNumber? (head : List Char) : Option Float :=
  if endsWithMark head then none else Number.spelled? head

/-- The number that the longest possible head of a text spells. -/
def leadingNumber (cs : List Char) : Float :=
  ((List.range' 1 cs.length).reverse.findSome? fun n => headNumber? (cs.take n)).getD
    Number.notANumber

/-- The value of a digit in a radix up to 36. -/
def digit? (radix : Nat) (c : Char) : Option Nat :=
  let v :=
    if c.isDigit then some (c.toNat - '0'.toNat)
    else if 'a' ≤ c ∧ c ≤ 'z' then some (c.toNat - 'a'.toNat + 10)
    else if 'A' ≤ c ∧ c ≤ 'Z' then some (c.toNat - 'A'.toNat + 10)
    else none
  v.filter (· < radix)

/-- The digits of a radix at the head of a text. -/
def leadingDigits (radix : Nat) : List Char → List Nat
  | [] => []
  | c :: cs => match digit? radix c with
    | some d => d :: leadingDigits radix cs
    | none => []

/-- The integer at the head of a text in a radix; it must have a digit and fit in 64 bits. -/
def leadingInteger (radix : Nat) (cs : List Char) : Float :=
  let (negative, rest) := Decimal.splitSign cs
  let ds := leadingDigits radix rest
  let n := ds.foldl (fun n d => radix * n + d) 0
  if ds.isEmpty || Number.maxInt64 < n then Number.notANumber
  else if negative then -(Number.ofNat n) else Number.ofNat n

end ColumnQuery.Text
