/-
  What the operators of expressions do with values.

  Arithmetic on null is null; adding a text joins texts. `==` reads unlike types as numbers,
  `===` does not; neither finds not-a-number equal to itself. Comparisons that make no sense
  are false.
-/
import ColumnQuery.Number.Arithmetic
import ColumnQuery.Syntax.Node.Basic
import ColumnQuery.Value.Order
import ColumnQuery.Value.Text

namespace ColumnQuery

namespace Value

/-- Equality across types. -/
def looselyEquals : Value → Value → Bool
  | null, null => true
  | null, _ | _, null => false
  | number x, number y => x == y
  | string s, string t => s == t
  | a, b =>
    match a, b with
    | array _, _ | object _, _ | _, array _ | _, object _ => same a b
    | _, _ => a.toFloat == b.toFloat

/-- Equality within a type. -/
def strictlyEquals : Value → Value → Bool
  | number x, number y => x == y
  | a, b => same a b

/-- The position that a value names in a list of a given length. -/
def position? (v : Value) (length : Nat) : Option Nat :=
  v.number?.bind fun x =>
    if x ≥ 0.0 && Number.isIntegral x && Number.toNat64 x < length then some (Number.toNat64 x)
    else none

/-- Whether a value is a key of an object or a position of a list. -/
def isIn (a : Value) : Value → Bool
  | object entries => (field? entries a.text).isSome
  | array items => (a.position? items.length).isSome
  | _ => false

/-- Access to a member: an item or the length of a list, an entry of an object, a character or
    the length of a text. -/
def member (v key : Value) : Value :=
  match v with
  | array items =>
    if key.string? = some "length" then .ofNat items.length
    else .ofOption ((key.position? items.length).bind (items[·]?))
  | object entries => .ofOption (field? entries key.text)
  | string s =>
    let cs := s.toList
    if key.string? = some "length" then .ofNat cs.length
    else .ofOption (((key.position? cs.length).bind (cs[·]?)).map fun c => .string c.toString)
  | _ => .null

end Value

namespace UnaryOp

def apply (op : UnaryOp) (v : Value) : Value :=
  match op with
  | not => .boolean !v.truthy
  | typeOf => .string v.typeName
  | negate => if v.isNull then .null else .number (-v.toFloat)
  | plus => if v.isNull then .null else .number v.toFloat
  | bitNot => if v.isNull then .null else .number (Number.bitNot v.toFloat)

end UnaryOp

namespace BinaryOp

/-- The sum, or the joined text if an operand is a text. -/
def sum : Value → Value → Value
  | .string s, b => .string (s ++ b.text)
  | a, .string t => .string (a.text ++ t)
  | a, b => .number (a.toFloat + b.toFloat)

/-- A numeric operator; null stays null. -/
def arithmetic (f : Float → Float → Float) (a b : Value) : Value :=
  if a.isNull || b.isNull then .null else .number (f a.toFloat b.toFloat)

/-- A comparison, which holds if the order of the operands is among the accepted ones. -/
def comparison (accepted : List Ordering) (a b : Value) : Value :=
  .boolean ((a.compare? b).any (accepted.contains ·))

def apply (op : BinaryOp) (a b : Value) : Value :=
  match op with
  | equals => .boolean (a.looselyEquals b)
  | notEquals => .boolean !(a.looselyEquals b)
  | strictEquals => .boolean (a.strictlyEquals b)
  | strictNotEquals => .boolean !(a.strictlyEquals b)
  | less => comparison [.lt] a b
  | lessEquals => comparison [.lt, .eq] a b
  | greater => comparison [.gt] a b
  | greaterEquals => comparison [.gt, .eq] a b
  | isIn => .boolean (a.isIn b)
  | add => if a.isNull || b.isNull then .null else sum a b
  | subtract => arithmetic (· - ·) a b
  | multiply => arithmetic (· * ·) a b
  | divide => arithmetic (· / ·) a b
  | modulo => arithmetic Number.remainder a b
  | power => arithmetic Float.pow a b
  | bitAnd => arithmetic Number.bitAnd a b
  | bitOr => arithmetic Number.bitOr a b
  | bitXor => arithmetic Number.bitXor a b
  | shiftLeft => arithmetic Number.shiftLeft a b
  | shiftRight => arithmetic Number.shiftRight a b
  | unsignedShiftRight => arithmetic Number.unsignedShiftRight a b

end BinaryOp

namespace LogicalOp

/-- Whether the left operand decides the result. -/
def decidedBy (op : LogicalOp) (left : Value) : Bool :=
  match op with
  | and => !left.truthy
  | or => left.truthy
  | nullish => !left.isNull

end LogicalOp

end ColumnQuery
