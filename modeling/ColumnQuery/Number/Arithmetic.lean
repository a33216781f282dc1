/-
  Arithmetic of doubles beyond the four operations: the remainder, and 32-bit words.

  The remainder is exact: both operands are brought to one power of two and divided as
  integers. Bit operators work on the integer part of a number modulo `2^32`, read as a
  natural number or as a signed one. The cube root is the double nearest to the exact root.
-/
import ColumnQuery.Number.Binary64

namespace ColumnQuery

namespace Binary64

/-- The bits of `± mantissa · 2^exponent`, for a mantissa below `2^53` and a number that is a
    double: the mantissa is moved up to `2^52` as far as the exponent allows. -/
def pack (negative : Bool) (mantissa : Nat) (exponent : Int) : Nat :=
  let sign := if negative then 0x8000000000000000 else 0
  if mantissa = 0 then sign
  else
    let shift := min (52 - mantissa.log2) (exponent + 1074).toNat
    let m := mantissa * Nat.pow 2 shift
    let field := (exponent - shift + 1075).toNat
    if m < hiddenBit then sign + m else sign + field * hiddenBit + (m - hiddenBit)

end Binary64

namespace Number

def cube (n : Nat) : Nat := n * n * n

/-- The greatest natural number below `2^bits` whose cube is at most `n`, bit by bit from the
    top. -/
def floorCubeRoot (n bits : Nat) : Nat :=
  (List.range bits).reverse.foldl
    (fun r i => if cube (r + Nat.pow 2 i) ≤ n then r + Nat.pow 2 i else r) 0

/-- The remainder of division toward zero, with the sign of the dividend. -/
def remainder (x y : Float) : Float :=
  match Binary64.ofFloat x, Binary64.ofFloat y with
  | .finite negative m e, .finite _ n f =>
    if n = 0 then notANumber
    else
      let low := min e f
      let r := (m * Nat.pow 2 (e - low).toNat) % (n * Nat.pow 2 (f - low).toNat)
      Float.ofBits (Binary64.pack negative r low).toUInt64
  | .finite _ _ _, .infinite _ => x
  | _, _ => notANumber

/-- The double nearest to the cube root. The root is sought with two or three bits more than a
    double has, which then round it; it never lies halfway between two doubles, because the
    cube of such a number is no double. -/
def cubeRoot (x : Float) : Float :=
  match Binary64.ofFloat x with
  | .finite negative m e =>
    if m = 0 then x
    else
      let least := 164 - (m.log2 : Int)
      let shift := least + (e - least) % 3
      let root := floorCubeRoot (m * Nat.pow 2 shift.toNat) 57
      let extra : Nat := root.log2 - 52
      let mantissa := (root + Nat.pow 2 (extra - 1)) / Nat.pow 2 extra
      Float.ofBits (Binary64.pack negative mantissa ((e - shift) / 3 + extra)).toUInt64
  | _ => x

/-- The integer part modulo `2^32`; `0` if the number is not finite. -/
def toWord (x : Float) : Nat := (((truncated? x).getD 0) % 0x100000000).toNat

/-- A word read as a signed number. -/
def signed (w : Nat) : Int := if w < 0x80000000 then w else (w : Int) - 0x100000000

/-- A word as a number, read as signed. -/
def ofSignedWord (w : Nat) : Float := ofInt (signed (w % 0x100000000))

def bitNot (x : Float) : Float := ofSignedWord (0xffffffff - toWord x)

def bitAnd (x y : Float) : Float := ofSignedWord (toWord x &&& toWord y)

def bitOr (x y : Float) : Float := ofSignedWord (toWord x ||| toWord y)

def bitXor (x y : Float) : Float := ofSignedWord (toWord x ^^^ toWord y)

/-- Shifts go by the amount modulo `32`. -/
def shiftLeft (x y : Float) : Float := ofSignedWord (toWord x <<< (toWord y % 32))

def shiftRight (x y : Float) : Float :=
  ofInt (signed (toWord x) / (Nat.pow 2 (toWord y % 32) : Nat))

def unsignedShiftRight (x y : Float) : Float := ofNat (toWord x >>> (toWord y % 32))

/-- `-1`, `1`, or the number itself if it is zero or not-a-number. -/
def sign (x : Float) : Float :=
  if x == 0.0 || x.isNaN then x else if x < 0.0 then -1.0 else 1.0

/-- The nearest whole number, halves up. -/
def round (x : Float) : Float := (x + 0.5).floor

end Number

end ColumnQuery
