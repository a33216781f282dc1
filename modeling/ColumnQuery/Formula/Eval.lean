/-
  Evaluation of formulas.

  A formula is evaluated at a position, with the results of the operators at hand. The slots of
  block constants are passed along: evaluation takes them and answers them as it leaves them.
  There is no value exactly if a row outside a column, or outside the results of an operator,
  is read.
-/
import ColumnQuery.Formula.Basic

namespace ColumnQuery

/-- The current rows, and the result of an operator at a row (none outside the results). -/
structure Env where
  position : Position
  results : OpRef → Nat → Option Value

namespace Env

/-- Results where no operators are expected. -/
def noResults : OpRef → Nat → Option Value := fun _ _ => some .null

def ofPosition (position : Position) : Env := ⟨position, noResults⟩

end Env

/-- The slots of block constants; a slot that was never set reads as null. -/
abbrev Slots := Array Value

namespace Slots

def get (s : Slots) (i : Nat) : Value := s[i]?.getD .null

/-- Sets a slot, after widening the slots with nulls as far as needed. -/
def put (s : Slots) (i : Nat) (v : Value) : Slots :=
  (s ++ Array.replicate (i + 1 - s.size) Value.null).setIfInBounds i v

end Slots

namespace Formula

mutual

/-- The value of a formula, with the slots after its evaluation. -/
def evalWith (env : Env) : Formula → Slots → Option (Value × Slots)
  | literal v, s => some (v, s)
  | column t c, s =>
    match env.position.rowOf t with
    | some row => (c.get? row).map (·, s)
    | none => some (.null, s)
  | dictionaryEq t c key negated, s =>
    match env.position.rowOf t with
    | some row => (c.keyAt? row).map fun stored => (.boolean ((stored == some key) != negated), s)
    | none => some (.boolean negated, s)
  | slot i, s => some (s.get i, s)
  | op ref, s => (env.results ref (env.position.left.getD 0)).map (·, s)
  | unary o a, s => do
    let (v, s) ← evalWith env a s
    return (o.apply v, s)
  | binary o l r, s => do
    let (a, s) ← evalWith env l s
    let (b, s) ← evalWith env r s
    return (o.apply a b, s)
  | logical o l r, s => do
    let (a, s) ← evalWith env l s
    if o.decidedBy a then return (a, s) else evalWith env r s
  | conditional t c a, s => do
    let (v, s) ← evalWith env t s
    if v.truthy then evalWith env c s else evalWith env a s
  | array items, s => do
    let (vs, s) ← evalList env items s
    return (.array vs, s)
  | object entries, s => do
    let (es, s) ← evalEntries env entries s
    return (.ofFields es, s)
  | member o p, s => do
    let (v, s) ← evalWith env o s
    let (key, s) ← evalWith env p s
    return (v.member key, s)
  | call f args, s => do
    let (vs, s) ← evalList env args s
    return (f.apply vs, s)
  | block body, s => do
    let (r, s) ← exec env body s
    return (r.getD .null, s)
  | escape f tables params, s => (f ⟨tables, env.position⟩ params).map (·, s)

def evalList (env : Env) : List Formula → Slots → Option (List Value × Slots)
  | [], s => some ([], s)
  | f :: fs, s => do
    let (v, s) ← evalWith env f s
    let (vs, s) ← evalList env fs s
    return (v :: vs, s)

def evalEntries (env : Env) :
    List (String × Formula) → Slots → Option (List (String × Value) × Slots)
  | [], s => some ([], s)
  | (k, f) :: es, s => do
    let (v, s) ← evalWith env f s
    let (vs, s) ← evalEntries env es s
    return ((k, v) :: vs, s)

/-- Runs statements in turn up to the first `return` reached; answers its value, if any. -/
def exec (env : Env) : List Statement → Slots → Option (Option Value × Slots)
  | [], s => some (none, s)
  | .assign i init :: rest, s => do
    let (v, s) ← evalWith env init s
    exec env rest (s.put i v)
  | .expression f :: rest, s => do
    let (_, s) ← evalWith env f s
    exec env rest s
  | .returns none :: _, s => some (some .null, s)
  | .returns (some f) :: _, s => do
    let (v, s) ← evalWith env f s
    return (some v, s)
  | .branch t c a :: rest, s => do
    let (v, s) ← evalWith env t s
    match ← (if v.truthy then exec env c s else exec env a s) with
    | (some v, s) => return (some v, s)
    | (none, s) => exec env rest s
  | .block body :: rest, s => do
    match ← exec env body s with
    | (some v, s) => return (some v, s)
    | (none, s) => exec env rest s

end

/-- The value of a formula with fresh slots. -/
def eval (f : Formula) (env : Env) : Option Value := (f.evalWith env #[]).map (·.1)

/-- The value of a constant formula. -/
def constant? (f : Formula) : Option Value :=
  if f.isConstant then f.eval (Env.ofPosition .none) else none

end Formula

end ColumnQuery
