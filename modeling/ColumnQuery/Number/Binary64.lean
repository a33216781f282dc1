/-
  Doubles as the numbers they stand for.

  A double is not-a-number, an infinity, or `± mantissa · 2^exponent` with natural `mantissa`
  and integer `exponent`; `Binary64.ofFloat` reads that off the bits. What the library asks of
  doubles beyond their arithmetic is decided on that form in exact integers: whether a double
  is integral, its integer part, its sign.

  Two relations on doubles are kept apart:
  * `Number.same`: one number, as group and join keys see it (all not-a-numbers are the same,
    both zeros are the same);
  * `Number.order`: the order of sort keys on numbers, which puts `-0` before `0`.
-/

namespace ColumnQuery

/-- What a double stands for; a finite one is `± mantissa · 2^exponent`. -/
inductive Binary64 where
  | nan
  | infinite (negative : Bool)
  | finite (negative : Bool) (mantissa : Nat) (exponent : Int)
deriving DecidableEq, Repr

namespace Binary64

/-- `2^52`: the leading bit of a mantissa, which the bits of a double leave out. -/
def hiddenBit : Nat := 0x10000000000000

/-- Reads sign, exponent field and fraction off the 64 bits. -/
def ofBits (bits : Nat) : Binary64 :=
  let negative := bits.testBit 63
  let field : Nat := bits / hiddenBit % 2048
  let fraction : Nat := bits % hiddenBit
  if field = 2047 then if fraction = 0 then .infinite negative else .nan
  else if field = 0 then .finite negative fraction (-1074)
  else .finite negative (fraction + hiddenBit) ((field : Int) - 1075)

def ofFloat (x : Float) : Binary64 := ofBits x.toBits.toNat

/-- The magnitude without its fraction. -/
def wholePart (mantissa : Nat) (exponent : Int) : Nat :=
  if 0 ≤ exponent then mantissa * Nat.pow 2 exponent.toNat
  else mantissa / Nat.pow 2 (-exponent).toNat

/-- Whether `mantissa · 2^exponent` has no fraction. -/
def isWhole (mantissa : Nat) (exponent : Int) : Bool :=
  0 ≤ exponent || mantissa % Nat.pow 2 (-exponent).toNat == 0

end Binary64

namespace Number

def infinity : Float := 1.0 / 0.0

def notANumber : Float := 0.0 / 0.0

/-- The integer part (toward zero) of a finite double. -/
def truncated? (x : Float) : Option Int :=
  match Binary64.ofFloat x with
  | .finite negative m e =>
    let n : Int := Binary64.wholePart m e
    some (if negative then -n else n)
  | _ => none

/-- Finite without a fraction. -/
def isIntegral (x : Float) : Bool :=
  match Binary64.ofFloat x with
  | .finite _ m e => Binary64.isWhole m e
  | _ => false

/-- The integer part, held between `lo` and `hi`; `0` for not-a-number. -/
def clamped (lo hi : Int) (x : Float) : Int :=
  match Binary64.ofFloat x with
  | .nan => 0
  | .infinite negative => if negative then lo else hi
  | .finite negative m e =>
    let n : Int := Binary64.wholePart m e
    max lo (min hi (if negative then -n else n))

/-- The least and the greatest 64-bit signed integer. -/
def minInt64 : Int := -0x8000000000000000

def maxInt64 : Int := 0x7fffffffffffffff

/-- The greatest 64-bit natural number. -/
def maxNat64 : Nat := 0xffffffffffffffff

def toInt64 (x : Float) : Int := clamped minInt64 maxInt64 x

def toNat64 (x : Float) : Nat := (clamped 0 maxNat64 x).toNat

/-- What 64-bit arithmetic makes of an integer: its remainder modulo `2^64`, read as signed. -/
def wrapInt64 (n : Int) : Int := n.bmod (maxNat64 + 1)

/-- What 64-bit arithmetic makes of a natural number. -/
def wrapNat64 (n : Nat) : Nat := n % (maxNat64 + 1)

/-- Drops the fraction and keeps the sign, also that of zero. -/
def trunc (x : Float) : Float := if x < 0.0 then x.ceil else x.floor

def ofInt (n : Int) : Float := Float.ofInt n

def ofNat (n : Nat) : Float := Float.ofNat n

/-! ## One number, and the order of numbers -/

/-- One bit pattern for each number: not-a-number has one, and so has zero. -/
def canonicalBits (x : Float) : Nat :=
  match Binary64.ofFloat x with
  | .nan => 0x7ff8000000000000
  | .finite _ 0 _ => 0
  | _ => x.toBits.toNat

/-- The two doubles are one number as a key: not-a-number is itself, and `-0` is `0`. -/
def same (x y : Float) : Bool := canonicalBits x == canonicalBits y

/-- The place of a double in the order of bit patterns: magnitudes ascending, the negative
    ones mirrored below, so that `-0` stands just before `0`. -/
def place (x : Float) : Int :=
  let bits := x.toBits.toNat
  if bits.testBit 63 then -((bits % 0x8000000000000000 : Nat) : Int) - 1 else (bits : Int)

def order (x y : Float) : Ordering := compare (place x) (place y)

/-- The order of the numbers, if both are numbers; `-0` equals `0`. -/
def compare? (x y : Float) : Option Ordering :=
  if x < y then some .lt else if x == y then some .eq else if y < x then some .gt else none

end Number

end ColumnQuery
