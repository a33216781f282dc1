/-
  The rows of two views that match.

  A condition is either an equality of keys or a predicate of two rows. `Matches` holds the
  visible rows of both views in order, with the pairs of positions that match. From it come the
  rows of a join (with or without the rows that match nothing), the rows of the left view that
  match at all, and the first match of each.
-/
import ColumnQuery.Join.KeyIndex
import ColumnQuery.View.Basic

namespace ColumnQuery

/-- How rows are matched. -/
inductive JoinCondition where
  /-- Equality in all columns that both tables have. -/
  | shared
  /-- Equality in the named columns, which both tables have. -/
  | columns (names : List String)
  /-- Equality of expressions, pair by pair. -/
  | keys (left right : List ExprSpec)
  /-- A predicate of two rows. -/
  | predicate (expr : ExprSpec)

/-- A condition with its expressions resolved. -/
inductive Matcher where
  /-- Equal keys; `shared` names the columns that are equal by it. -/
  | keys (left right : List Formula) (shared : List String)
  | predicate (formula : Formula)

namespace Matcher

/-- The columns that matching rows agree in. -/
def shared : Matcher → List String
  | keys _ _ names => names
  | predicate _ => []

/-- Resolves expressions over a pair of tables, with the parameters of the left view. -/
def resolvePair (left right : View) (exprs : List (String × ExprSpec)) :
    Except QueryError Resolution :=
  resolve ⟨[left.data, right.data], left.params, .joined⟩ exprs

/-- Resolves the keys of one side. -/
def resolveKeys (v : View) (keys : List ExprSpec) : Except QueryError (List Formula) := do
  let r ← v.resolve (keys.zipIdx.map fun (k, i) => (s!"key{i}", k)) .rows
  return r.exprs.map (·.formula)

/-- Equality of keys, given on both sides. -/
def ofKeys (left right : View) (leftKeys rightKeys : List ExprSpec) (shared : List String) :
    Except QueryError Matcher := do
  return .keys (← resolveKeys left leftKeys) (← resolveKeys right rightKeys) shared

/-- Equality in columns that both tables have. -/
def ofColumns (left right : View) (names : List String) : Except QueryError Matcher :=
  ofKeys left right (names.map .column) (names.map .column) names

/-- The columns that both tables have, in the order of the left one. -/
def sharedColumns (left right : View) : List String :=
  left.data.names.filter fun n => (right.data.column? n).isSome

def resolveCondition (left right : View) : JoinCondition → Except QueryError Matcher
  | .shared =>
    let names := sharedColumns left right
    if names.isEmpty then .error (.joinKeyMismatch 0 0) else ofColumns left right names
  | .columns names =>
    match names.find? fun n =>
        (left.data.column? n).isNone || (right.data.column? n).isNone with
    | some n => .error (.unknownColumn n)
    | none => ofColumns left right names
  | .keys leftKeys rightKeys =>
    if leftKeys.length ≠ rightKeys.length ∨ leftKeys.isEmpty then
      .error (.joinKeyMismatch leftKeys.length rightKeys.length)
    else ofKeys left right leftKeys rightKeys []
  | .predicate expr => do
    let r ← resolvePair left right [("on", expr)]
    match r.exprs.head? with
    | some e => .ok (.predicate e.formula)
    | none => .error .outOfBounds

/-- The key of a row; none if a value of it is invalid. -/
def validKey (key : List Value) : Option (List Value) :=
  if key.all Value.isValid then some key else none

/-- The keys of rows. -/
def rowKeys (keys : List Formula) (rows : List Nat) : Option (List (Option (List Value))) :=
  rows.mapM fun row => (Formula.evalKey keys row).map validKey

/-- Whether a predicate is true at a pair of rows. -/
def holds (f : Formula) (left right : Nat) : Option Bool :=
  (f.eval (.ofPosition ⟨some left, some right⟩)).map Value.truthy

/-- The pairs of positions at which a predicate is true, in order. -/
def satisfyingPairs (f : Formula) (left right : List Nat) : Option (List (Nat × Nat)) := do
  let byRow ← left.zipIdx.mapM fun (l, lp) =>
    right.zipIdx.filterMapM fun (r, rp) => do
      return if ← holds f l r then some (lp, rp) else none
  return byRow.flatten

/-- The pairs of positions that match, in order. -/
def pairs (m : Matcher) (left right : List Nat) : Option (List (Nat × Nat)) :=
  match m with
  | keys leftKeys rightKeys _ => do
    return KeyIndex.pairs (← rowKeys leftKeys left) (← rowKeys rightKeys right)
  | predicate f => satisfyingPairs f left right

end Matcher

/-- Two lists of rows with the pairs of positions that match. -/
structure Matches where
  left : List Nat
  right : List Nat
  pairs : List (Nat × Nat)
deriving DecidableEq, Repr

namespace Matches

/-- The matches of the visible rows of two views. -/
def find? (left right : View) (m : Matcher) : Option Matches := do
  let leftRows ← left.sorted
  let rightRows ← right.sorted
  return ⟨leftRows, rightRows, ← m.pairs leftRows rightRows⟩

/-- The left rows with their matches, from the pairs that are left over; rows without a match
    stand alone or are dropped. -/
def leftRows (keepAlone : Bool) (right : Array Nat) :
    List (Nat × Nat) → List (Nat × Nat) → List (Option Nat × Option Nat)
  | [], _ => []
  | (row, position) :: rest, pairs =>
    let own := pairs.takeWhile (·.1 == position)
    let later := pairs.dropWhile (·.1 == position)
    let matched := own.map fun p => (some row, right[p.2]?)
    (if own.isEmpty && keepAlone then [(some row, none)] else matched)
      ++ leftRows keepAlone right rest later

/-- The positions on the right that match something. -/
def matchedRight (m : Matches) : BitSet :=
  m.pairs.foldl (fun s p => s.insert p.2) (.empty m.right.length)

/-- The right rows that match nothing. -/
def unmatchedRight (m : Matches) : List Nat :=
  (m.right.zipIdx.filter fun e => !m.matchedRight.contains e.2).map (·.1)

/-- The pairs of rows of a join: the left rows in order, each with its matches in order, then
    the right rows that match nothing. -/
def outputRows (m : Matches) (keepLeft keepRight : Bool) : List (Option Nat × Option Nat) :=
  leftRows keepLeft m.right.toArray m.left.zipIdx m.pairs
    ++ (if keepRight then m.unmatchedRight.map fun row => (none, some row) else [])

/-- The left rows that match something, once for every match. -/
def matchedLeft (m : Matches) : List Nat := m.pairs.filterMap fun p => m.left[p.1]?

/-- The left rows that match something, each with its first match. -/
def firstMatches (m : Matches) : List (Nat × Nat) :=
  m.left.zipIdx.filterMap fun (row, position) => do
    let p ← m.pairs.find? (·.1 == position)
    return (row, ← m.right[p.2]?)

end Matches

end ColumnQuery
